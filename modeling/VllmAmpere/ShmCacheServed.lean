import VllmAmpere.ShmCacheRuns

/-! Every reference is served and every count comes out even in the runs in which no reader guesses
wrong, and not in all runs. -/

open List

namespace VllmAmpere.ShmObjectStore

open ShmRingBuffer

variable {κ V : Type} [DecidableEq κ]

namespace System

variable {n : Nat} {serde : Serde V} {s s' : System κ V n} {objs : List (Obj κ V)}

/-- An update hands out an item that is cached, puts one that is not, or passes it on: it never
raises. -/
theorem Inv.update (h : Inv serde s objs) (pos : 0 < n)
    (guess : Guessed serde s .update) (step : Step serde s .update s') :
    ∃ objs, Inv serde s' objs := by
  obtain ⟨few, sized⟩ := guess
  rw [h.holds.stored.sound.len, length_map] at few
  have result : ∀ refs item was left, s.phase = .updating refs ((item, was) :: left) →
      ∀ result storage, s.storage.getAndUpdateItem serde item was = (result, storage) →
        (∃ objs, result = .ok none ∧
          Inv serde { s with storage := storage, phase := .updating refs left } objs) ∨
        ∃ objs address id, result = .ok (some (address, id)) ∧ Inv serde { s with
          storage := storage
          shown := s.show' item
          phase := .updating (refs ++ [⟨address, id, s.show' item item.mmHash, was⟩]) left } objs := by
    intro refs item was left updating result storage ran
    rw [updating] at sized
    unfold Storage.getAndUpdateItem at ran
    cases found : s.storage.keyIndex.get? item.mmHash with
    | some cached =>
      obtain ⟨o, mem, key, rfl⟩ := (h.holds.dicts.keyIndex _ _).mp found
      have shown : s.show' item = s.shown :=
        if_pos (h.holds.dicts.isCached_iff.mpr ⟨o, mem, key⟩)
      rw [found] at ran
      cases ran
      refine .inr ⟨bump o.key objs, _, _, rfl, ?_⟩
      rw [shown]
      exact h.handCached updating mem key
    | none =>
      have new : ∀ o ∈ objs, o.key ≠ item.mmHash := fun o mem key => by
        cases found.symm.trans ((h.holds.dicts.keyIndex _ _).mpr ⟨o, mem, key, rfl⟩)
      have untouched : ¬was = true := fun touched => by
        obtain ⟨o, mem, key⟩ := h.touched item (by rw [updating, touched]; exact mem_cons_self)
        exact new o mem key
      obtain ⟨k, put, storage', eq, free, same, readers, cases⟩ := h.holds.put few new sized
      rw [found] at ran
      dsimp only at ran
      rw [if_neg untouched, eq] at ran
      rcases cases with ⟨rfl | rfl, holds⟩ | ⟨chunk, rfl, holds, zero⟩
      · cases ran
        exact .inl ⟨_, rfl, h.pass pos updating new free same readers holds⟩
      · cases ran
        exact .inl ⟨_, rfl, h.pass pos updating new free same readers holds⟩
      · cases ran
        exact .inr ⟨_, _, _, rfl, h.put pos updating new free same readers holds zero⟩
  cases step with
  | hand updating ok =>
    rcases result _ _ _ _ updating _ _ ok with ⟨objs, passed, -⟩ | ⟨objs, address, id, handed, inv⟩
    · cases passed
    · cases handed
      exact ⟨objs, inv⟩
  | pass updating ok =>
    rcases result _ _ _ _ updating _ _ ok with ⟨objs, -, inv⟩ | ⟨objs, address, id, handed, -⟩
    · exact ⟨objs, inv⟩
    · cases handed
  | raise updating raised =>
    rcases result _ _ _ _ updating _ _ raised with ⟨objs, passed, -⟩ | ⟨objs, _, _, handed, -⟩
    · cases passed
    · cases handed

theorem Inv.step (h : Inv serde s objs) (pos : 0 < n) {event : Event κ V n}
    (guess : Guessed serde s event) (step : Step serde s event s') : ∃ objs, Inv serde s' objs := by
  cases event with
  | update => exact h.update pos guess step
  | request items =>
    cases step with
    | request idle =>
      exact ⟨objs,
        { h with
          collected := nofun
          touched := nofun
          counts := fun o mem => by
            have counts := h.counts o mem
            rw [idle] at counts
            exact counts }⟩
  | touch =>
    cases step with
    | touch touching => exact ⟨_, h.touch touching⟩
  | turn =>
    cases step with
    | turn touched => exact ⟨objs, h.turn touched⟩
  | send =>
    cases step with
    | send updated => exact ⟨objs, h.send updated⟩
  | reader r =>
    cases step with
    | reader next ok =>
      have guess : RightGuess n s.storage.ring (s.todo r) := guess
      rw [next] at guess
      exact ⟨objs, h.reader next guess ok⟩

theorem reachable_inv (pos : 0 < n) (h : ((runs serde n).meeting (Guessed serde)).Reachable s) :
    ∃ objs, Inv serde s objs := by
  refine h.invariant (P := fun s => ∃ objs, Inv serde s objs) ?_ ?_
  · rintro s ⟨maxObjectSize, dataBufferSize, buf, size, rfl⟩
    exact ⟨[], .created size buf⟩
  · rintro s event s' - ⟨objs, inv⟩ ⟨guess, step⟩
    exact inv.step pos guess step

theorem Inv.served (h : Inv serde s objs) : Served serde s := by
  intro r ref rest next small
  obtain ⟨op, mem, rfl⟩ : ∃ op ∈ s.todo r, op.ref = ref := by
    rcases next with next | next <;> rw [next] <;> exact ⟨_, mem_cons_self, rfl⟩
  obtain ⟨o, there, address, id, value⟩ := h.owed r op mem
  obtain ⟨ring, counted⟩ := Stored.exists_increment small
  refine ⟨o.value, ring, value, ?_⟩
  rw [get, ← id, ← address, h.holds.stored.readObject there, address, counted]
  rfl

theorem Inv.balanced (h : Inv serde s objs) (drained : Drained s) : Balanced s := by
  intro key address id found
  obtain ⟨o, mem, -, same⟩ := (h.holds.dicts.keyIndex _ _).mp found
  cases same
  have counts := h.counts o mem
  obtain ⟨idle, done⟩ := drained
  simp only [idle, done, Phase.pending, Op.owed, map_nil, sum_nil, Finset.sum_const_zero,
    Nat.mul_zero, Nat.add_zero, Nat.cast_zero, Int.add_zero] at counts
  exact ⟨o.writers, (h.holds.dicts.writerFlag _ _).mpr ⟨o, mem, rfl, rfl⟩, counts⟩

/-- Where no reader guesses wrong at a touch, every reference is served, and all readers have
counted every object as often as the writer once they have handled all requests. -/
theorem reachable_served (pos : 0 < n) (h : ((runs serde n).meeting (Guessed serde)).Reachable s) :
    Served serde s ∧ (Drained s → Balanced s) := by
  obtain ⟨objs, inv⟩ := reachable_inv pos h
  exact ⟨inv.served, inv.balanced⟩

section Ahead

instance (serde : Serde V) : DecidablePred (Sized serde : Phase κ V → Prop)
  | .idle | .touching _ _ | .updating _ [] => inferInstanceAs (Decidable True)
  | .updating _ ((_, _) :: _) => inferInstanceAs (Decidable (_ < _))

instance (n : Nat) (ring : RingBuffer) : DecidablePred (RightGuess n ring : List (Op V) → Prop)
  | .touch _ :: _ => inferInstanceAs (Decidable (_ ↔ _))
  | [] | .read _ :: _ | .ack _ :: _ => inferInstanceAs (Decidable True)

instance (serde : Serde V) (s : System κ V n) : DecidablePred (Guessed serde s)
  | .update => inferInstanceAs (Decidable (_ ∧ Sized serde s.phase))
  | .reader r => inferInstanceAs (Decidable (RightGuess n s.storage.ring (s.todo r)))
  | .request _ | .touch | .turn | .send => inferInstanceAs (Decidable True)

/-- The state behind an event, if the event can happen. -/
def exec (serde : Serde V) (s : System κ V n) : Event κ V n → Option (System κ V n)
  | .request items =>
    match s.phase with
    | .idle => some { s with phase := .touching [] items }
    | _ => none
  | .touch =>
    match s.phase with
    | .touching done (item :: left) => some { s with
        storage := s.storage.touch item.mmHash
        phase := .touching (done ++ [(item, s.storage.isCached item.mmHash)]) left }
    | _ => none
  | .turn =>
    match s.phase with
    | .touching done [] => some { s with phase := .updating [] done }
    | _ => none
  | .update =>
    match s.phase with
    | .updating refs ((item, was) :: left) =>
      match s.storage.getAndUpdateItem serde item was with
      | (.ok (some (address, id)), storage) => some { s with
          storage := storage
          shown := s.show' item
          phase := .updating (refs ++ [⟨address, id, s.show' item item.mmHash, was⟩]) left }
      | (.ok none, storage) => some { s with storage := storage, phase := .updating refs left }
      | (.error _, storage) => some { s with storage := storage, phase := .idle }
    | _ => none
  | .send =>
    match s.phase with
    | .updating refs [] => some { s with
        phase := .idle
        todo := fun r => s.todo r ++ Op.handling refs }
    | _ => none
  | .reader r =>
    match s.todo r with
    | op :: rest =>
      match op.run serde n s.storage.ring with
      | .ok ring => some { s with
          storage := { s.storage with ring := ring }
          todo := Function.update s.todo r rest }
      | .error _ => none
    | [] => none

theorem step_of_exec {event : Event κ V n} (ok : exec serde s event = some s') :
    Step serde s event s' := by
  cases event with
  | request items =>
    simp only [exec] at ok
    split at ok
    next idle =>
      cases ok
      exact .request idle
    · cases ok
  | touch =>
    simp only [exec] at ok
    split at ok
    next touching =>
      cases ok
      exact .touch touching
    · cases ok
  | turn =>
    simp only [exec] at ok
    split at ok
    next touched =>
      cases ok
      exact .turn touched
    · cases ok
  | update =>
    simp only [exec] at ok
    split at ok
    next updating =>
      split at ok
      next ran =>
        cases ok
        exact .hand updating ran
      next ran =>
        cases ok
        exact .pass updating ran
      next ran =>
        cases ok
        exact .raise updating ran
    · cases ok
  | send =>
    simp only [exec] at ok
    split at ok
    next updated =>
      cases ok
      exact .send updated
    · cases ok
  | reader r =>
    simp only [exec] at ok
    split at ok
    next next =>
      split at ok
      next ran =>
        cases ok
        exact .reader next ran
      · cases ok
    · cases ok

def byteSerde : Serde UInt8 where
  serialize := fun v => ([], [v])
  deserialize := List.head?
  deserialize_serialize := fun _ => rfl

def requested {n : Nat} (items : List (Item Nat UInt8)) : List (Event Nat UInt8 n) :=
  .request items :: items.map (fun _ => .touch) ++ .turn :: items.map (fun _ => .update) ++ [.send]

def reads {n : Nat} (r : Fin n) (ops : Nat) : List (Event Nat UInt8 n) :=
  List.replicate ops (.reader r)

def small (n : Nat) : System Nat UInt8 n := create n 10 20 fun _ => 0

theorem small_created (n : Nat) : (runs byteSerde n).init (small n) :=
  ⟨10, 20, fun _ => 0, by decide, rfl⟩

/-- All is handled, and the object under key 0 has these counts. -/
def drainedWith (writers readers : Nat) (s : System Nat UInt8 n) : Bool :=
  (s.phase matches .idle) && (List.finRange n).all (fun r => (s.todo r).isEmpty) &&
    match s.storage.keyIndex.get? 0 with
    | some (address, id) =>
      s.storage.writerFlag.get? id == some writers && readerCount s.storage.ring address == readers
    | none => false

theorem counts_of_drainedWith {s : System Nat UInt8 n} {writers readers : Nat}
    (h : drainedWith writers readers s = true) :
    Drained s ∧ ∃ address id, s.storage.keyIndex.get? 0 = some (address, id) ∧
    s.storage.writerFlag.get? id = some writers ∧ readerCount s.storage.ring address = readers := by
  unfold drainedWith at h
  rw [Bool.and_eq_true, Bool.and_eq_true, all_eq_true] at h
  obtain ⟨⟨idle, empty⟩, counts⟩ := h
  refine ⟨⟨?_, fun r => List.isEmpty_iff.mp (empty r (mem_finRange r))⟩, ?_⟩
  · cases phase : s.phase with
    | idle => rfl
    | touching done left | updating refs left =>
      rw [phase] at idle
      cases idle
  · split at counts
    next address id found =>
      rw [Bool.and_eq_true, beq_iff_eq, beq_iff_eq] at counts
      exact ⟨address, id, found, counts⟩
    · cases counts

def unserved (r : Fin n) (s : System Nat UInt8 n) : Bool :=
  match s.todo r with
  | .read ref :: _ =>
    readerCount s.storage.ring ref.address + 1 < 2 ^ 31 &&
      !(get byteSerde s.storage.ring ref.address ref.monotonicId).isOk
  | _ => false

theorem not_served {s : System Nat UInt8 n} {r : Fin n} (h : unserved r s = true) :
    ¬Served byteSerde s := by
  intro served
  unfold unserved at h
  split at h
  next ref rest next =>
    rw [Bool.and_eq_true, decide_eq_true_eq] at h
    obtain ⟨value, ring, -, ok⟩ := served r ref rest (.inl next) h.1
    rw [ok] at h
    cases h.2
  · cases h

/-- An object that is put and then found again, for two readers. -/
theorem reachable_served_twice : ∃ s : System Nat UInt8 2,
    s.storage.isCached 0 = true ∧ Drained s ∧ Served byteSerde s ∧ Balanced s := by
  obtain ⟨s, reached, counts⟩ := TransitionSystem.exists_reachable (exec byteSerde)
    (Guessed byteSerde) (fun _ _ _ => step_of_exec) (small_created 2)
    (requested [⟨0, 7⟩] ++ reads 0 3 ++ reads 1 3 ++
      (requested [⟨0, 7⟩] ++ reads 0 3 ++ reads 1 3))
    (drainedWith 3 6) (by decide +kernel)
  obtain ⟨drained, address, id, found, -⟩ := counts_of_drainedWith counts
  obtain ⟨served, balanced⟩ := reachable_served (by decide) reached
  refine ⟨s, ?_, drained, served, balanced drained⟩
  rw [Storage.isCached, found]
  rfl

/-- A reader that comes behind another finds the counts of that one at its touches. When an item
comes twice in a request it counts the new object for the reads that are still due, and the object
is freed under it; when a request for the object comes behind, the first reader misses its touch
there, and the object is never freed. -/
theorem reader_ahead :
    (∃ s, (runs (κ := Nat) byteSerde 2).Reachable s ∧ ¬Served byteSerde s) ∧
      ∃ s, (runs (κ := Nat) byteSerde 2).Reachable s ∧ Drained s ∧ ¬Balanced s := by
  constructor
  · obtain ⟨s, reached, gone⟩ := TransitionSystem.exists_reachable (exec byteSerde)
      (fun _ _ => True) (fun _ _ _ => step_of_exec) (small_created 2)
      (requested [⟨0, 7⟩, ⟨0, 7⟩] ++ reads 0 6 ++ reads 1 2 ++ requested [⟨1, 8⟩])
      (unserved 1) (by decide +kernel)
    exact ⟨s, reached.of_meeting, not_served gone⟩
  · obtain ⟨s, reached, counts⟩ := TransitionSystem.exists_reachable (exec byteSerde)
      (fun _ _ => True) (fun _ _ _ => step_of_exec) (small_created 2)
      (requested [⟨0, 7⟩] ++ requested [⟨0, 7⟩] ++ reads 0 3 ++ reads 1 1 ++
        reads 0 3 ++ reads 1 5)
      (drainedWith 3 5) (by decide +kernel)
    obtain ⟨drained, address, id, found, writers, readers⟩ := counts_of_drainedWith counts
    refine ⟨s, reached.of_meeting, drained, fun balanced => ?_⟩
    obtain ⟨count, counted, even⟩ := balanced 0 address id found
    cases counted.symm.trans writers
    rw [readers] at even
    cases even

end Ahead

end System

end VllmAmpere.ShmObjectStore
