import Mathlib.Data.List.Nodup
import VllmAmpere.MessageQueue

/-! Without timeouts between a chunk and its socket, each reader is returned the objects one after
the other: which chunks are in use, whose flags stand for what, and what each step keeps of it. -/

open List Function

namespace VllmAmpere.MessageQueue

variable {V : Type}

theorem chunk_inj {i j m : Nat} (near : i < j + m) (near' : j < i + m) (same : i % m = j % m) :
    i = j := by
  rcases Nat.le_total i j with le | le
  · have zero := Nat.sub_mod_eq_zero_of_mod_eq same.symm
    rw [Nat.mod_eq_of_lt (by omega)] at zero
    omega
  · have zero := Nat.sub_mod_eq_zero_of_mod_eq same
    rw [Nat.mod_eq_of_lt (by omega)] at zero
    omega

theorem update_flag {n : Nat} (flags : Nat → Fin n → Bool) (k : Nat) (r : Fin n) (flag : Bool)
    (k' : Nat) (r' : Fin n) : update flags k (update (flags k) r flag) k' r' =
    if k' = k ∧ r' = r then flag else flags k' r' := by
  by_cases here : k' = k
  · subst here
    rw [update_self, update_apply]
    simp
  · rw [update_of_ne here, if_neg fun both => here both.1]

/-- The chunks that a reader has taken beyond the objects that it was returned. -/
def Reader.ahead : Reader → Nat
  | .receiving => 1
  | .idle | .checking | .flagged _ | .waiting | .reading _ => 0

def Writer.pending : Writer V → List V
  | .sending obj => [obj]
  | .idle | .summing .. | .blocked _ | .clearing _ | .writing .. | .resetting .. => []

namespace State

variable {q : Queue V}

def taken (s : State q) (r : Fin q.nReader) : Nat := (s.got r).length + (s.reader r).ahead

/-- The chunk of an object that is still in use. -/
structure Live (s : State q) (j : Nat) (obj : V) : Prop where
  written : s.written (j % q.maxChunks) = true
  flags : ∀ r, s.readFlag (j % q.maxChunks) r = decide (j < s.taken r)
  framed : Framed q.pickle q.maxChunkBytes obj (s.chunk (j % q.maxChunks))

def WriterAt (s : State q) : Writer V → Prop
  | .summing _ k sum =>
    k ≤ q.nReader ∧ sum ≤ k ∧ (sum = k → ∀ r, r.val < k → s.readFlag s.writerIdx r = true)
  | .clearing _ => ∀ r, s.enqueued.length < s.taken r + q.maxChunks
  | .writing obj left offset =>
    s.written s.writerIdx = false ∧ ∃ done : List (List UInt8),
      q.pickle.pieces q.maxChunkBytes obj = done.map some ++ left ∧
      offset = done.flatten.length ∧ done.flatten <+: s.chunk s.writerIdx
  | .resetting obj k =>
    s.written s.writerIdx = false ∧
      Framed q.pickle q.maxChunkBytes obj (s.chunk s.writerIdx) ∧
      ∀ r, r.val < k → s.readFlag s.writerIdx r = false
  | .sending obj => overflows q obj = true ∧ ∃ before, s.enqueued = before ++ [obj]
  | .idle | .blocked _ => True

def ReaderAt (s : State q) (r : Fin q.nReader) : Reader → Prop
  | .flagged flag => flag = false → s.readFlag (s.readerIdx r) r = false
  | .reading parse => ∃ obj, s.enqueued[(s.got r).length]? = some obj ∧
    parse.finish (s.chunk (s.readerIdx r)) =
      if overflows q obj then none else some (q.pickle.allBuffers obj)
  | .receiving => ∃ obj, s.enqueued[(s.got r).length]? = some obj ∧ overflows q obj = true
  | .idle | .checking | .waiting => True

/-- Where every chunk in use has its object and the flags of those who have taken it, and every
socket the large objects that its reader has not received. -/
structure Inv (s : State q) : Prop where
  round : 0 < q.maxChunks
  writerIdx : s.writerIdx = s.enqueued.length % q.maxChunks
  readerIdx : ∀ r, s.readerIdx r = s.taken r % q.maxChunks
  behind : ∀ r, s.taken r ≤ s.enqueued.length
  window : ∀ r, s.enqueued.length ≤ s.taken r + q.maxChunks
  got : ∀ r, s.got r <+: s.enqueued
  live : ∀ j obj, s.enqueued[j]? = some obj → s.enqueued.length ≤ j + q.maxChunks →
    (s.enqueued.length = j + q.maxChunks → s.written s.writerIdx = true) → Live s j obj
  freed : s.written s.writerIdx = false → ∀ r, s.enqueued.length < s.taken r + q.maxChunks
  fresh : ∀ k, s.enqueued.length ≤ k → k < q.maxChunks → s.written k = false
  writer : WriterAt s s.writer
  reader : ∀ r, ReaderAt s r (s.reader r)
  socket : ∀ r, s.socket r ++ s.writer.pending.map q.pickle.allBuffers =
    ((s.enqueued.drop (s.got r).length).filter (overflows q)).map q.pickle.allBuffers

variable {s s' : State q} {r : Fin q.nReader} {obj : V}

theorem Inv.created (round : 0 < q.maxChunks) (chunk : Nat → List UInt8) : Inv (create q chunk) where
  round := round
  writerIdx := (Nat.zero_mod _).symm
  readerIdx := fun _ => (Nat.zero_mod _).symm
  behind := fun _ => le_rfl
  window := fun _ => Nat.zero_le _
  got := fun _ => prefix_rfl
  live := nofun
  freed := fun _ _ => Nat.lt_of_lt_of_le round (Nat.le_add_left _ _)
  fresh := fun _ _ _ => rfl
  writer := trivial
  reader := fun _ => trivial
  socket := fun _ => rfl

theorem Inv.next (h : Inv s) {j : Nat} (taken : j = s.taken r) (next : s.enqueued[j]? = some obj) :
    Live s j obj := by
  refine h.live j obj next (by rw [taken]; exact h.window r) fun full => ?_
  cases cleared : s.written s.writerIdx with
  | true => rfl
  | false =>
    have := h.freed cleared r
    omega

theorem Inv.apart (h : Inv s) (cleared : s.written s.writerIdx = false)
    (behind : s.taken r < s.enqueued.length) : s.readerIdx r ≠ s.writerIdx := by
  intro same
  rw [h.readerIdx, h.writerIdx] at same
  have freed := h.freed cleared r
  have := chunk_inj (by omega) (by omega) same
  omega

theorem lt_of_getElem? {j : Nat} (next : s.enqueued[j]? = some obj) : j < s.enqueued.length :=
  (List.getElem?_eq_some_iff.mp next).1

theorem Inv.writerMoves (h : Inv s) {w : Writer V} (at' : WriterAt s w)
    (pending : w.pending = s.writer.pending) : Inv { s with writer := w } :=
  { h with
    live := fun j obj there near full =>
      have live := h.live j obj there near full
      { live with }
    writer := by
      cases w <;> exact at'
    reader := fun r => by
      have reader := h.reader r
      show ReaderAt _ r (s.reader r)
      cases phase : s.reader r <;> rw [phase] at reader <;> exact reader
    socket := fun r => by
      show s.socket r ++ w.pending.map _ = _
      rw [pending]
      exact h.socket r }

theorem Inv.readerMoves (h : Inv s) {p : Reader} (at' : ReaderAt s r p)
    (ahead : p.ahead = (s.reader r).ahead) :
    Inv { s with reader := update s.reader r p } := by
  have taken : ∀ r', State.taken { s with reader := update s.reader r p } r' = s.taken r' := by
    intro r'
    show (s.got r').length + (update s.reader r p r').ahead = _
    by_cases same : r' = r
    · rw [same, update_self, ahead]
      rfl
    · rw [update_of_ne same]
      rfl
  refine
    { h with
      readerIdx := fun r' => (taken r').symm ▸ h.readerIdx r'
      behind := fun r' => (taken r').symm ▸ h.behind r'
      window := fun r' => (taken r').symm ▸ h.window r'
      live := fun j obj there near full => ?_
      freed := fun cleared r' => (taken r').symm ▸ h.freed cleared r'
      writer := ?_
      reader := fun r' => ?_ }
  · have live := h.live j obj there near full
    exact { live with flags := fun r' => (taken r').symm ▸ live.flags r' }
  · have writer := h.writer
    show WriterAt _ s.writer
    cases phase : s.writer <;> rw [phase] at writer
    case clearing obj => exact fun r' => (taken r').symm ▸ writer r'
    all_goals exact writer
  · show ReaderAt _ r' (update s.reader r p r')
    by_cases same : r' = r
    · rw [same, update_self]
      cases p <;> exact at'
    · rw [update_of_ne same]
      have reader := h.reader r'
      cases phase : s.reader r' <;> rw [phase] at reader <;> exact reader

theorem prefix_next {got enqueued : List V} (h : got <+: enqueued)
    (next : enqueued[got.length]? = some obj) : got ++ [obj] <+: enqueued := by
  obtain ⟨rest, rfl⟩ := h
  rw [getElem?_append_right le_rfl, Nat.sub_self] at next
  cases rest with
  | nil => cases next
  | cons first rest =>
    cases next
    exact ⟨rest, by rw [append_assoc, singleton_append]⟩

section

variable (h : Inv s)
include h

/-- A reader takes its chunk: it is one chunk further, with the object that was in it, or before
the socket. -/
theorem Inv.takes (none : (s.reader r).ahead = 0)
    (next : s.enqueued[(s.got r).length]? = some obj) :
    Inv { s.take r with
      reader := update s.reader r (if overflows q obj then .receiving else .idle)
      got := update s.got r (s.got r ++ if overflows q obj then [] else [obj]) } := by
  generalize after : ({ s.take r with
    reader := update s.reader r (if overflows q obj then .receiving else .idle)
    got := update s.got r (s.got r ++ if overflows q obj then [] else [obj]) } : State q) = t
  have start : s.taken r = (s.got r).length := by
    rw [State.taken, none, Nat.add_zero]
  have behind : s.taken r < s.enqueued.length := start ▸ lt_of_getElem? next
  have window := h.window r
  have others : ∀ r', r' ≠ r → t.got r' = s.got r' ∧ t.reader r' = s.reader r' ∧
      t.readerIdx r' = s.readerIdx r' ∧ t.taken r' = s.taken r' := by
    intro r' ne
    have got : t.got r' = s.got r' := by
      rw [← after]
      exact update_of_ne ne _ _
    have reader : t.reader r' = s.reader r' := by
      rw [← after]
      exact update_of_ne ne _ _
    refine ⟨got, reader, ?_, by rw [State.taken, State.taken, got, reader]⟩
    rw [← after]
    exact update_of_ne ne _ _
  have own : t.got r = s.got r ++ (if overflows q obj then [] else [obj]) ∧
      t.reader r = if overflows q obj then .receiving else .idle := by
    rw [← after]
    exact ⟨update_self .., update_self ..⟩
  have taken : t.taken r = s.taken r + 1 := by
    rw [State.taken, own.1, own.2, start]
    split <;> simp [Reader.ahead]
  have more : ∀ r', s.taken r' ≤ t.taken r' := fun r' => by
    by_cases same : r' = r
    · rw [same, taken]
      omega
    · rw [(others r' same).2.2.2]
  have flags : ∀ k r', t.readFlag k r' =
      if k = s.readerIdx r ∧ r' = r then true else s.readFlag k r' := fun k r' => by
    rw [← after]
    exact update_flag s.readFlag (s.readerIdx r) r true k r'
  have shared : t.written = s.written ∧ t.chunk = s.chunk ∧ t.writer = s.writer ∧
      t.writerIdx = s.writerIdx ∧ t.enqueued = s.enqueued ∧ t.socket = s.socket := by
    rw [← after]
    exact ⟨rfl, rfl, rfl, rfl, rfl, rfl⟩
  obtain ⟨written, chunk, writer, writerIdx, enqueued, socket⟩ := shared
  refine
    { round := h.round
      writerIdx := by rw [writerIdx, enqueued, h.writerIdx]
      readerIdx := fun r' => ?_
      behind := fun r' => ?_
      window := fun r' => ?_
      got := fun r' => ?_
      live := fun j obj' there near full => ?_
      freed := fun cleared r' => ?_
      fresh := by rw [written, enqueued]; exact h.fresh
      writer := ?_
      reader := fun r' => ?_
      socket := fun r' => ?_ }
  · by_cases same : r' = r
    · rw [same, taken, ← Nat.mod_add_mod, ← h.readerIdx r, ← after]
      exact update_self ..
    · rw [(others r' same).2.2.1, (others r' same).2.2.2]
      exact h.readerIdx r'
  · rw [enqueued]
    by_cases same : r' = r
    · rw [same, taken]
      exact behind
    · rw [(others r' same).2.2.2]
      exact h.behind r'
  · rw [enqueued]
    exact (h.window r').trans (Nat.add_le_add_right (more r') _)
  · rw [enqueued]
    by_cases same : r' = r
    · rw [same, own.1]
      split
      · rw [append_nil]
        exact h.got r
      · exact prefix_next (h.got r) next
    · rw [(others r' same).1]
      exact h.got r'
  · rw [enqueued] at there near full
    rw [written, writerIdx] at full
    have live := h.live j obj' there near full
    have lt := lt_of_getElem? there
    refine ⟨by rw [written]; exact live.written, fun r' => ?_, by rw [chunk]; exact live.framed⟩
    rw [flags, live.flags r']
    by_cases same : r' = r
    · rw [same, taken, h.readerIdx r]
      by_cases slot : j % q.maxChunks = s.taken r % q.maxChunks
      · rw [if_pos ⟨slot, rfl⟩, chunk_inj (by omega) (by omega) slot]
        exact (decide_eq_true (Nat.lt_succ_self _)).symm
      · rw [if_neg fun both => slot both.1]
        have ne : j ≠ s.taken r := fun eq => slot (by rw [eq])
        exact decide_eq_decide.mpr (by omega)
    · rw [if_neg fun both => same both.2, (others r' same).2.2.2]
  · rw [written, writerIdx] at cleared
    rw [enqueued]
    exact (h.freed cleared r').trans_le (Nat.add_le_add_right (more r') _)
  · have at' := h.writer
    rw [writer]
    cases phase : s.writer <;> rw [phase] at at'
    case summing obj' k sum =>
      refine ⟨at'.1, at'.2.1, fun all r' below => ?_⟩
      rw [flags, writerIdx, at'.2.2 all r' below, ite_self]
    case clearing obj' =>
      intro r'
      rw [enqueued]
      exact (at' r').trans_le (Nat.add_le_add_right (more r') _)
    case writing obj' left offset =>
      rw [WriterAt, written, writerIdx, chunk]
      exact at'
    case resetting obj' k =>
      refine ⟨by rw [written, writerIdx]; exact at'.1, by rw [chunk, writerIdx]; exact at'.2.1,
        fun r' below => ?_⟩
      rw [flags, writerIdx, if_neg fun both => h.apart at'.1 behind both.1.symm]
      exact at'.2.2 r' below
    case sending obj' =>
      rw [WriterAt, enqueued]
      exact at'
    all_goals trivial
  · by_cases same : r' = r
    · rw [same, own.2]
      split
      next overflows =>
        refine ⟨obj, ?_, overflows⟩
        rw [enqueued, own.1, if_pos overflows, append_nil]
        exact next
      · trivial
    · obtain ⟨got, reader, readerIdx, -⟩ := others r' same
      have at' := h.reader r'
      rw [reader]
      cases phase : s.reader r' <;> rw [phase] at at'
      case flagged flag =>
        intro off
        rw [flags, if_neg fun both => same both.2, readerIdx]
        exact at' off
      case reading parse =>
        rw [ReaderAt, enqueued, got, chunk, readerIdx]
        exact at'
      case receiving =>
        rw [ReaderAt, enqueued, got]
        exact at'
      all_goals trivial
  · rw [socket, writer, enqueued, h.socket r']
    by_cases same : r' = r
    · rw [same, own.1]
      split
      · rw [append_nil]
      next inline =>
        have first : s.enqueued.drop (s.got r).length =
            obj :: s.enqueued.drop ((s.got r).length + 1) := by
          obtain ⟨bound, eq⟩ := List.getElem?_eq_some_iff.mp next
          rw [← eq]
          exact drop_eq_getElem_cons bound
        rw [first, filter_cons_of_neg inline, length_append, length_singleton]
    · rw [(others r' same).1]

theorem Inv.receives {buffers : List (List UInt8)} {rest : List (List (List UInt8))}
    (receiving : s.reader r = .receiving) (first : s.socket r = buffers :: rest) :
    ∃ obj, q.pickle.load buffers = some obj ∧
    Inv (State.returns { s with socket := update s.socket r rest } r (some obj)) := by
  have at' := h.reader r
  rw [receiving] at at'
  obtain ⟨obj, next, overflows⟩ := at'
  have drop : s.enqueued.drop (s.got r).length = obj :: s.enqueued.drop ((s.got r).length + 1) := by
    obtain ⟨bound, eq⟩ := List.getElem?_eq_some_iff.mp next
    rw [← eq]
    exact drop_eq_getElem_cons bound
  have socket := h.socket r
  rw [first, drop, filter_cons_of_pos overflows, map_cons, cons_append,
    List.cons.injEq] at socket
  obtain ⟨rfl, left⟩ := socket
  refine ⟨obj, q.pickle.load_allBuffers obj, ?_⟩
  generalize after : State.returns { s with socket := update s.socket r rest } r (some obj) = t
  have others : ∀ r', r' ≠ r → t.got r' = s.got r' ∧ t.reader r' = s.reader r' ∧
      t.socket r' = s.socket r' := by
    intro r' ne
    rw [← after]
    exact ⟨update_of_ne ne _ _, update_of_ne ne _ _, update_of_ne ne _ _⟩
  have own : t.got r = s.got r ++ [obj] ∧ t.reader r = .idle ∧ t.socket r = rest := by
    rw [← after]
    exact ⟨update_self .., update_self .., update_self ..⟩
  have taken : ∀ r', t.taken r' = s.taken r' := by
    intro r'
    by_cases same : r' = r
    · rw [same, State.taken, State.taken, own.1, own.2.1, receiving, length_append]
      rfl
    · rw [State.taken, State.taken, (others r' same).1, (others r' same).2.1]
  have shared : t.written = s.written ∧ t.readFlag = s.readFlag ∧ t.chunk = s.chunk ∧
      t.writer = s.writer ∧ t.writerIdx = s.writerIdx ∧ t.readerIdx = s.readerIdx ∧
      t.enqueued = s.enqueued := by
    rw [← after]
    exact ⟨rfl, rfl, rfl, rfl, rfl, rfl, rfl⟩
  obtain ⟨written, readFlag, chunk, writer, writerIdx, readerIdx, enqueued⟩ := shared
  refine
    { round := h.round
      writerIdx := by rw [writerIdx, enqueued, h.writerIdx]
      readerIdx := fun r' => by rw [readerIdx, taken]; exact h.readerIdx r'
      behind := fun r' => by rw [enqueued, taken]; exact h.behind r'
      window := fun r' => by rw [enqueued, taken]; exact h.window r'
      got := fun r' => ?_
      live := fun j obj' there near full => ?_
      freed := by rw [written, writerIdx, enqueued]; exact fun cleared r' => taken r' ▸ h.freed cleared r'
      fresh := by rw [written, enqueued]; exact h.fresh
      writer := ?_
      reader := fun r' => ?_
      socket := fun r' => ?_ }
  · rw [enqueued]
    by_cases same : r' = r
    · rw [same, own.1]
      exact prefix_next (h.got r) next
    · rw [(others r' same).1]
      exact h.got r'
  · rw [enqueued] at there near full
    rw [written, writerIdx] at full
    have live := h.live j obj' there near full
    refine ⟨by rw [written]; exact live.written, fun r' => ?_, by rw [chunk]; exact live.framed⟩
    rw [readFlag, taken]
    exact live.flags r'
  · have at' := h.writer
    rw [writer]
    cases phase : s.writer <;> rw [phase] at at'
    case clearing obj' =>
      intro r'
      rw [enqueued, taken]
      exact at' r'
    case idle => trivial
    case blocked obj' => trivial
    all_goals
      simp only [WriterAt, readFlag, written, writerIdx, chunk, enqueued]
      exact at'
  · by_cases same : r' = r
    · rw [same, own.2.1]
      trivial
    · obtain ⟨got, reader, -⟩ := others r' same
      have at' := h.reader r'
      rw [reader]
      cases phase : s.reader r' <;> rw [phase] at at'
      case idle | checking | waiting => trivial
      all_goals
        simp only [ReaderAt, readFlag, readerIdx, enqueued, got, chunk]
        exact at'
  · rw [writer, enqueued]
    by_cases same : r' = r
    · rw [same, own.2.2, own.1, length_append]
      exact left
    · rw [(others r' same).2.2, (others r' same).1]
      exact h.socket r'

theorem Inv.elsewhere (cleared : s.written s.writerIdx = false) {j : Nat}
    (there : s.enqueued[j]? = some obj) (near : s.enqueued.length ≤ j + q.maxChunks)
    (full : s.enqueued.length = j + q.maxChunks → s.written s.writerIdx = true) :
    j % q.maxChunks ≠ s.writerIdx := by
  intro same
  rw [h.writerIdx] at same
  have lt := lt_of_getElem? there
  by_cases eq : s.enqueued.length = j + q.maxChunks
  · cases (full eq).symm.trans cleared
  · have := chunk_inj (by omega) (by omega) same
    omega

theorem Inv.clears (clearing : s.writer = .clearing obj) :
    Inv { s with
      written := update s.written s.writerIdx false
      writer := .writing obj (q.pickle.pieces q.maxChunkBytes obj) 0 } := by
  have free : ∀ r, s.enqueued.length < s.taken r + q.maxChunks := by
    have at' := h.writer
    rw [clearing] at at'
    exact at'
  refine
    { h with
      live := fun j obj there near full => ?_
      freed := fun _ => free
      fresh := fun k from' below => ?_
      writer := ⟨update_self .., [], rfl, rfl, List.nil_prefix⟩
      reader := fun r => ?_
      socket := fun r => ?_ }
  · change s.enqueued.length ≤ j + q.maxChunks at near
    have lt : j < s.enqueued.length := lt_of_getElem? there
    have short : s.enqueued.length ≠ j + q.maxChunks := fun eq => by
      cases (update_self s.writerIdx false s.written).symm.trans (full eq)
    have live := h.live j obj there near fun eq => absurd eq short
    refine { live with written := ?_ }
    refine (update_of_ne (fun same => ?_) _ _).trans live.written
    rw [h.writerIdx] at same
    have := chunk_inj (by omega) (by omega) same
    omega
  · show update s.written s.writerIdx false k = false
    by_cases same : k = s.writerIdx
    · rw [same, update_self]
    · rw [update_of_ne same]
      exact h.fresh k from' below
  · have at' := h.reader r
    show ReaderAt _ r (s.reader r)
    cases phase : s.reader r <;> rw [phase] at at' <;> exact at'
  · have socket := h.socket r
    rw [clearing] at socket
    exact socket

theorem Inv.writes {bytes buf : List UInt8} {left : List (Option (List UInt8))}
    {offset : Nat} (writing : s.writer = .writing obj (some bytes :: left) offset)
    (ok : splice (s.chunk s.writerIdx) offset bytes = some buf) :
    Inv { s with
      chunk := update s.chunk s.writerIdx buf
      writer := .writing obj left (offset + bytes.length) } := by
  have at' := h.writer
  rw [writing] at at'
  obtain ⟨cleared, done, pieces, rfl, written⟩ := at'
  refine
    { h with
      live := fun j obj there near full => ?_
      writer := ⟨cleared, done ++ [bytes], ?_, ?_, ?_⟩
      reader := fun r => ?_
      socket := fun r => ?_ }
  · have live := h.live j obj there near full
    refine { live with framed := ?_ }
    show Framed _ _ obj (update s.chunk s.writerIdx buf (j % q.maxChunks))
    rw [update_of_ne (h.elsewhere cleared there near full)]
    exact live.framed
  · rw [pieces, map_append, append_assoc]
    rfl
  · rw [flatten_append, length_append]
    simp
  · show (done ++ [bytes]).flatten <+: update s.chunk s.writerIdx buf s.writerIdx
    rw [update_self, flatten_append, flatten_singleton]
    exact (splice_written written ok).1
  · have at' := h.reader r
    show ReaderAt _ r (s.reader r)
    cases phase : s.reader r <;> rw [phase] at at'
    case reading parse =>
      obtain ⟨obj', next, reads⟩ := at'
      refine ⟨obj', next, ?_⟩
      have behind : s.taken r < s.enqueued.length := by
        rw [State.taken, phase]
        exact lt_of_getElem? next
      show parse.finish (update s.chunk s.writerIdx buf (s.readerIdx r)) = _
      rw [update_of_ne (h.apart cleared behind)]
      exact reads
    all_goals exact at'
  · have socket := h.socket r
    rw [writing] at socket
    exact socket

theorem Inv.resets {k : Nat} (resetting : s.writer = .resetting obj k)
    (below : k < q.nReader) :
    Inv { s with
      readFlag := update s.readFlag s.writerIdx
        (update (s.readFlag s.writerIdx) ⟨k, below⟩ false)
      writer := .resetting obj (k + 1) } := by
  have at' := h.writer
  rw [resetting] at at'
  obtain ⟨cleared, framed, reset⟩ := at'
  have flags := update_flag s.readFlag s.writerIdx ⟨k, below⟩ false
  refine
    { h with
      live := fun j obj there near full => ?_
      writer := ⟨cleared, framed, fun r lt => ?_⟩
      reader := fun r => ?_
      socket := fun r => ?_ }
  · have live := h.live j obj there near full
    refine { live with flags := fun r => ?_ }
    refine (flags _ r).trans ?_
    rw [if_neg fun both => h.elsewhere cleared there near full both.1]
    exact live.flags r
  · refine (flags _ r).trans ?_
    split
    next => rfl
    next other =>
      refine reset r ?_
      have ne : r.val ≠ k := fun eq => other ⟨rfl, Fin.ext eq⟩
      omega
  · have at' := h.reader r
    show ReaderAt _ r (s.reader r)
    cases phase : s.reader r <;> rw [phase] at at'
    case flagged flag =>
      intro off
      refine (flags _ r).trans ?_
      rw [at' off, ite_self]
    all_goals exact at'
  · have socket := h.socket r
    rw [resetting] at socket
    exact socket

theorem Inv.publishes {k : Nat} (resetting : s.writer = .resetting obj k)
    (all : ¬k < q.nReader) :
    Inv { s with
      written := update s.written s.writerIdx true
      writerIdx := (s.writerIdx + 1) % q.maxChunks
      enqueued := s.enqueued ++ [obj]
      writer := if overflows q obj then .sending obj else .idle } := by
  have at' := h.writer
  rw [resetting] at at'
  obtain ⟨cleared, framed, reset⟩ := at'
  have free := h.freed cleared
  have length : (s.enqueued ++ [obj]).length = s.enqueued.length + 1 := length_append
  have next : (s.writerIdx + 1) % q.maxChunks = (s.enqueued.length + 1) % q.maxChunks := by
    rw [h.writerIdx, Nat.mod_add_mod]
  have written : ∀ k, k ≠ s.writerIdx →
      update s.written s.writerIdx true k = s.written k :=
    fun k ne => update_of_ne ne _ _
  have published : Live { s with written := update s.written s.writerIdx true }
      s.enqueued.length obj := by
    rw [h.writerIdx] at reset framed ⊢
    refine ⟨update_self .., fun r => ?_, framed⟩
    refine (reset r (r.isLt.trans_le (not_lt.mp all))).trans (decide_eq_false ?_).symm
    exact not_lt.mpr (h.behind r)
  -- the objects before, of which one more is no longer in use
  have before : ∀ j obj', s.enqueued[j]? = some obj' → s.enqueued.length + 1 ≤ j + q.maxChunks →
      Live { s with written := update s.written s.writerIdx true } j obj' := by
    intro j obj' there near
    have live := h.live j obj' there (by omega) fun full => by omega
    have ne := h.elsewhere cleared there (by omega) fun full => by omega
    exact { live with written := (written _ ne).trans live.written }
  have live : ∀ j obj', (s.enqueued ++ [obj])[j]? = some obj' →
      s.enqueued.length + 1 ≤ j + q.maxChunks →
      Live { s with written := update s.written s.writerIdx true } j obj' := by
    intro j obj' there near
    rcases Nat.lt_or_ge j s.enqueued.length with lt | ge
    · rw [getElem?_append_left lt] at there
      exact before j obj' there near
    · have bound := (List.getElem?_eq_some_iff.mp there).1
      rw [length] at bound
      obtain rfl : j = s.enqueued.length := by omega
      rw [getElem?_append_right le_rfl, Nat.sub_self] at there
      cases there
      exact published
  have socket : ∀ r, s.socket r ++
      (if overflows q obj then Writer.sending obj else .idle : Writer V).pending.map
        q.pickle.allBuffers =
      (((s.enqueued ++ [obj]).drop (s.got r).length).filter (overflows q)).map
        q.pickle.allBuffers := by
    intro r
    have before := h.socket r
    rw [resetting, Writer.pending, map_nil, append_nil] at before
    rw [drop_append_of_le_length (h.got r).length_le, filter_append, map_append,
      before]
    congr 1
    by_cases overflows : overflows q obj = true
    · rw [if_pos overflows, filter_cons_of_pos overflows]
      rfl
    · rw [if_neg overflows, filter_cons_of_neg overflows]
      rfl
  refine
    { round := h.round
      writerIdx := by rw [next, length]
      readerIdx := h.readerIdx
      behind := fun r => by rw [length]; exact (h.behind r).trans (Nat.le_succ _)
      window := fun r => by rw [length]; exact free r
      got := fun r => (h.got r).trans (prefix_append _ _)
      live := fun j obj' there near _ => ?_
      freed := fun gone r => ?_
      fresh := fun k from' below => ?_
      writer := ?_
      reader := fun r => ?_
      socket := socket }
  · rw [length] at near
    have live := live j obj' there near
    exact { live with }
  · show (s.enqueued ++ [obj]).length < s.taken r + q.maxChunks
    rw [length]
    by_contra full
    have window := free r
    have behind := h.behind r
    obtain ⟨obj', there⟩ : ∃ obj', (s.enqueued ++ [obj])[s.taken r]? = some obj' :=
      ⟨_, getElem?_eq_getElem (by rw [length]; omega)⟩
    have used := (live _ obj' there (by omega)).written
    have slot : (s.writerIdx + 1) % q.maxChunks = s.taken r % q.maxChunks := by
      rw [next, show s.enqueued.length + 1 = s.taken r + q.maxChunks from by omega,
        Nat.add_mod_right]
    rw [slot] at gone
    cases gone.symm.trans used
  · rw [length] at from'
    have ne : k ≠ s.writerIdx := by
      rw [h.writerIdx, Nat.mod_eq_of_lt (by omega)]
      omega
    exact (written k ne).trans (h.fresh k (by omega) below)
  · show WriterAt _ (if overflows q obj then .sending obj else .idle)
    split
    next overflows => exact ⟨overflows, s.enqueued, rfl⟩
    · trivial
  · have at' := h.reader r
    have later : ∀ obj', s.enqueued[(s.got r).length]? = some obj' →
        (s.enqueued ++ [obj])[(s.got r).length]? = some obj' := fun obj' there => by
      rw [getElem?_append_left (lt_of_getElem? there), there]
    show ReaderAt _ r (s.reader r)
    cases phase : s.reader r <;> rw [phase] at at'
    case reading parse =>
      obtain ⟨obj', there, reads⟩ := at'
      exact ⟨obj', later obj' there, reads⟩
    case receiving =>
      obtain ⟨obj', there, overflows⟩ := at'
      exact ⟨obj', later obj' there, overflows⟩
    all_goals exact at'

theorem Inv.sends (sending : s.writer = .sending obj)
    (room : ∀ r, (s.socket r).length < q.highWater) :
    Inv { s with
      socket := fun r =>
        if (s.socket r).length < q.highWater then s.socket r ++ [q.pickle.allBuffers obj]
        else s.socket r
      writer := .idle } :=
  { h with
    live := fun j obj there near full =>
      have live := h.live j obj there near full
      { live with }
    writer := trivial
    reader := fun r => by
      have at' := h.reader r
      show ReaderAt _ r (s.reader r)
      cases phase : s.reader r <;> rw [phase] at at' <;> exact at'
    socket := fun r => by
      have socket := h.socket r
      rw [sending] at socket
      show (if _ then _ else _) ++ [] = _
      rw [if_pos (room r), append_nil]
      exact socket }

theorem Inv.writerStep (room : HasRoom s s.writer) (ok : s.writerStep = some s') :
    Inv s' := by
  have at' := h.writer
  unfold State.writerStep at ok
  cases phase : s.writer <;> rw [phase] at ok at' room
  case idle => cases ok
  case summing obj k sum =>
    obtain ⟨most, le, all⟩ := at'
    dsimp only at ok
    split at ok
    next below =>
      cases ok
      refine h.writerMoves ⟨below, ?_, fun full r lt => ?_⟩ (by rw [phase]; rfl)
      · cases s.readFlag s.writerIdx ⟨k, below⟩ <;> simp only [Bool.toNat_true, Bool.toNat_false] <;>
          omega
      · cases flag : s.readFlag s.writerIdx ⟨k, below⟩ <;>
          simp only [flag, Bool.toNat_true, Bool.toNat_false] at full
        · omega
        · rcases Nat.lt_succ_iff_lt_or_eq.mp lt with lt | eq
          · exact all (by omega) r lt
          · exact (congrArg _ (Fin.ext eq)).trans flag
    next above =>
      split at ok
      · cases ok
        exact h.writerMoves trivial (by rw [phase]; rfl)
      next open' =>
        cases ok
        refine h.writerMoves (fun r => ?_) (by rw [phase]; rfl)
        cases cleared : s.written s.writerIdx with
        | false => exact h.freed cleared r
        | true =>
          have read : sum = q.nReader := by
            by_contra ne
            exact open' ⟨cleared, ne⟩
          have flag := all (by omega) r (by omega)
          by_contra full
          have window := h.window r
          have behind := h.behind r
          have round := h.round
          obtain ⟨obj', there⟩ : ∃ obj', s.enqueued[s.taken r]? = some obj' :=
            ⟨_, getElem?_eq_getElem (by omega)⟩
          have live := h.next rfl there
          have slot : s.writerIdx = s.taken r % q.maxChunks := by
            rw [h.writerIdx, show s.enqueued.length = s.taken r + q.maxChunks from by omega,
              Nat.add_mod_right]
          rw [slot, live.flags r, decide_eq_true_eq] at flag
          omega
  case blocked obj =>
    cases ok
    exact h.writerMoves ⟨Nat.zero_le _, le_rfl, fun _ r lt => absurd lt (Nat.not_lt_zero _)⟩
      (by rw [phase]; rfl)
  case clearing obj =>
    cases ok
    exact h.clears phase
  case writing obj left offset =>
    match left with
    | [] =>
      cases ok
      obtain ⟨cleared, done, pieces, -, written⟩ := at'
      rw [append_nil] at pieces
      exact h.writerMoves ⟨cleared, ⟨done, pieces, written⟩,
        fun r lt => absurd lt (Nat.not_lt_zero _)⟩ (by rw [phase]; rfl)
    | none :: left =>
      cases ok
      exact h.writerMoves trivial (by rw [phase]; rfl)
    | some bytes :: left =>
      dsimp only at ok
      split at ok
      next buf fits =>
        cases ok
        exact h.writes phase fits
      · cases ok
        exact h.writerMoves trivial (by rw [phase]; rfl)
  case resetting obj k =>
    dsimp only at ok
    split at ok
    next below =>
      cases ok
      exact h.resets phase below
    next all =>
      cases ok
      exact h.publishes phase all
  case sending obj =>
    cases ok
    exact h.sends phase room

theorem Inv.readerStep (ok : s.readerStep r = some s') : Inv s' := by
  have at' := h.reader r
  unfold State.readerStep at ok
  cases phase : s.reader r <;> rw [phase] at ok at'
  case idle => cases ok
  case checking =>
    cases ok
    exact h.readerMoves (fun off => off) (by rw [phase]; rfl)
  case flagged flag =>
    dsimp only at ok
    split at ok
    next ready =>
      cases ok
      obtain ⟨written, off⟩ := ready
      have unread := at' (Bool.not_eq_true flag ▸ off)
      have start : s.taken r = (s.got r).length := by
        rw [State.taken, phase]
        rfl
      have behind : s.taken r < s.enqueued.length := by
        refine Nat.lt_of_le_of_ne (h.behind r) fun eq => ?_
        -- a reader that has taken all finds its flag set, or its chunk not written
        have round := h.round
        rw [h.readerIdx, eq] at written unread
        rcases Nat.lt_or_ge s.enqueued.length q.maxChunks with lt | ge
        · rw [Nat.mod_eq_of_lt lt] at written
          cases written.symm.trans (h.fresh _ le_rfl lt)
        · obtain ⟨obj', there⟩ :
              ∃ obj', s.enqueued[s.enqueued.length - q.maxChunks]? = some obj' :=
            ⟨_, getElem?_eq_getElem (by omega)⟩
          have live := h.live _ obj' there (by omega) fun _ => by rw [h.writerIdx, written]
          have flags := live.flags r
          rw [← Nat.mod_eq_sub_mod ge, unread] at flags
          have := of_decide_eq_false flags.symm
          omega
      obtain ⟨obj', there⟩ : ∃ obj', s.enqueued[s.taken r]? = some obj' :=
        ⟨_, getElem?_eq_getElem behind⟩
      have live := h.next rfl there
      refine h.readerMoves ⟨obj', start ▸ there, ?_⟩ (by rw [phase]; rfl)
      rw [h.readerIdx]
      exact live.framed.finish
    · cases ok
      exact h.readerMoves trivial (by rw [phase]; rfl)
  case waiting =>
    cases ok
    exact h.readerMoves trivial (by rw [phase]; rfl)
  case reading parse =>
    obtain ⟨obj, next, reads⟩ := at'
    have none' : (s.reader r).ahead = 0 := by
      rw [phase]
      rfl
    have takes := h.takes none' next
    cases parse
    case done result =>
      change result = _ at reads
      by_cases overflows : overflows q obj = true
      · rw [if_pos overflows] at reads takes
        rw [if_pos overflows, append_nil, update_eq_self] at takes
        rw [reads] at ok
        cases ok
        exact takes
      · rw [if_neg overflows] at reads takes
        rw [if_neg overflows] at takes
        rw [reads] at ok
        cases ok
        rw [q.pickle.load_allBuffers]
        exact takes
    all_goals
      cases ok
      refine h.readerMoves ⟨obj, next, ?_⟩ (by rw [phase]; rfl)
      rw [Parse.finish_step]
      exact reads
  case receiving =>
    dsimp only at ok
    split at ok
    · cases ok
    next buffers rest first =>
      cases ok
      obtain ⟨obj, loads, inv⟩ := h.receives phase first
      rw [loads]
      exact inv

theorem Inv.step {event : Event q} (line : InLine s event)
    (ok : s.step event = some s') : Inv s' := by
  cases event with
  | enqueue obj =>
    simp only [State.step] at ok
    split at ok
    next idle =>
      cases ok
      exact h.writerMoves ⟨Nat.zero_le _, le_rfl, fun _ r lt => absurd lt (Nat.not_lt_zero _)⟩
        (by rw [idle]; rfl)
    · cases ok
  | writer => exact h.writerStep line ok
  | enqueueTimeout =>
    simp only [State.step] at ok
    split at ok
    next blocked =>
      cases ok
      exact h.writerMoves trivial (by rw [blocked]; rfl)
    · cases ok
  | dequeue r =>
    simp only [State.step] at ok
    split at ok
    next idle =>
      cases ok
      exact h.readerMoves trivial (by rw [idle]; rfl)
    · cases ok
  | reader r => exact h.readerStep ok
  | dequeueTimeout r =>
    simp only [State.step] at ok
    split at ok
    next waiting =>
      cases ok
      exact h.readerMoves trivial (by rw [waiting]; rfl)
    · cases ok
  | recvTimeout r => exact line.elim

end

theorem reachable_inv (h : ((runs q).meeting InLine).Reachable s) : Inv s := by
  refine h.invariant (P := Inv) ?_ ?_
  · rintro s ⟨round, chunk, -, rfl⟩
    exact .created round chunk
  · rintro s event s' - inv ⟨line, ok⟩
    exact inv.step line ok

end State

end VllmAmpere.MessageQueue
