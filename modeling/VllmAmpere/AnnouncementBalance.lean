import VllmAmpere.OffloadingEvents
import VllmAmpere.TransitionSystem

/-! Store and removal announcements of offloaded chunks against each other: a hash is removed
at most as often as it was stored while each removal takes back a store made from the same
payload. -/

open List

namespace VllmAmpere.OffloadEvents

open OffloadingEventsTracker

/-- What was announced for one key of an event; it is full when it was made from a payload. -/
structure Announcement where
  key : OffloadKey
  medium : String
  ownership : Option String
  removed : Bool
  full : Bool
  deriving DecidableEq

section announcements

variable (tracker : OffloadingEventsTracker)

def announce (event : OffloadingEvent) (key : OffloadKey) : Announcement where
  key := key
  medium := event.medium.toEventStr
  ownership := event.ownership
  removed := event.removed
  full := (tracker.pendingEventMetadata.get? key).isSome

def announcements : OffloadingEventsTracker → List OffloadingEvent → List Announcement
  | _, [] => []
  | tracker, event :: rest =>
    event.keys.map (announce tracker event) ++ announcements (takeEvent tracker event).1 rest

end announcements

/-- Occurrences of a hash in the stores, and in the removals, of a medium and an owner. -/
def storedCount (hash : ExternalBlockHash) (medium : String) (ownership : Option String)
    (events : List KVCacheEvent) : Nat :=
  (events.map fun
    | .blockStored e =>
      if e.medium = medium ∧ e.ownership = ownership then e.blockHashes.count hash else 0
    | .blockRemoved _ => 0).sum

def removedCount (hash : ExternalBlockHash) (medium : String) (ownership : Option String)
    (events : List KVCacheEvent) : Nat :=
  (events.map fun
    | .blockStored _ => 0
    | .blockRemoved e =>
      if e.medium = medium ∧ e.ownership = ownership then e.blockHashes.count hash else 0).sum

variable (history : List Announcement) (a : Announcement)

def tally (removed : Bool) : Nat :=
  history.countP fun b =>
    b.key = a.key ∧ b.medium = a.medium ∧ b.ownership = a.ownership ∧ b.removed = removed

def fullTally (removed : Bool) : Nat :=
  history.countP fun b =>
    b.key = a.key ∧ b.medium = a.medium ∧ b.ownership = a.ownership ∧ b.removed = removed ∧ b.full

def Disciplined : Prop :=
  a.removed = true → tally history a true < tally history a false

def Backed : Prop :=
  a.removed = true → a.full = true → fullTally history a true < fullTally history a false

/-- A property of announcements one behind the other, each with those before it. -/
def Along (P : List Announcement → Announcement → Prop) :
    List Announcement → List Announcement → Prop
  | _, [] => True
  | history, a :: rest => P history a ∧ Along P (history ++ [a]) rest

/-- The tracker with all it has announced. -/
structure Log where
  tracker : OffloadingEventsTracker
  emitted : List KVCacheEvent
  history : List Announcement

inductive Call
  | recordStore (req : Request) (groupConfig : GroupOffloadConfig) (chunkIdx : Nat)
      (offloadKey : OffloadKey)
  | recordLookup (req : Request) (groupConfig : GroupOffloadConfig) (chunkIdx : Nat)
      (offloadKey : OffloadKey)
  | takeEvents (events : List OffloadingEvent)
  | reset

variable (hashesOf : OffloadKey → List BlockHash)

/-- The hashes of the chunk that a call records are those of its key: the last of them is in
the key, and each hash is that of the prefix before it. -/
def Named (req : Request)
    (groupConfig : GroupOffloadConfig) (chunkIdx : Nat) (key : OffloadKey) : Prop :=
  ∀ payload, buildEventMetadata req groupConfig chunkIdx = .ok payload →
    payload.blockHashes = hashesOf key

/-- The calls of the connector and their outcome. -/
inductive Step (hashesOf : OffloadKey → List BlockHash) : Log → Call → Log → Prop
  | recordStore {s : Log} {req groupConfig chunkIdx key tracker}
      (named : Named hashesOf req groupConfig chunkIdx key)
      (done : s.tracker.recordStore req groupConfig chunkIdx key = .ok tracker) :
      Step hashesOf s (.recordStore req groupConfig chunkIdx key) { s with tracker }
  | recordLookup {s : Log} {req groupConfig chunkIdx key tracker}
      (named : Named hashesOf req groupConfig chunkIdx key)
      (done : s.tracker.recordLookup req groupConfig chunkIdx key = .ok tracker) :
      Step hashesOf s (.recordLookup req groupConfig chunkIdx key) { s with tracker }
  | takeEvents {s : Log} {events : List OffloadingEvent}
      (disciplined : Along Disciplined s.history (announcements s.tracker events)) :
      Step hashesOf s (.takeEvents events)
        { tracker := (s.tracker.takeEvents events).1
          emitted := s.emitted ++ (s.tracker.takeEvents events).2
          history := s.history ++ announcements s.tracker events }
  | reset {s : Log} : Step hashesOf s .reset { s with tracker := s.tracker.reset }

/-- Where no removal is announced from a payload that its store did not have. -/
def Sound (s : Log) : Call → Prop
  | .takeEvents events => Along Backed s.history (announcements s.tracker events)
  | _ => True

section balance

/-- Removals have taken back stores, those from a payload stores from one. -/
def Balanced (history : List Announcement) : Prop :=
  ∀ a, tally history a true ≤ tally history a false ∧
    fullTally history a true ≤ fullTally history a false

theorem tally_append (history new : List Announcement) (a : Announcement) (removed : Bool) :
    tally (history ++ new) a removed = tally history a removed + tally new a removed :=
  countP_append

theorem fullTally_append (history new : List Announcement) (a : Announcement) (removed : Bool) :
    fullTally (history ++ new) a removed = fullTally history a removed + fullTally new a removed :=
  countP_append

theorem Balanced.snoc {history : List Announcement} (h : Balanced history) {a : Announcement}
    (disciplined : Disciplined history a) (backed : Backed history a) :
    Balanced (history ++ [a]) := by
  intro b
  have ⟨all, full⟩ := h b
  rw [tally_append, tally_append, fullTally_append, fullTally_append]
  by_cases same : a.key = b.key ∧ a.medium = b.medium ∧ a.ownership = b.ownership
  · obtain ⟨hk, hm, ho⟩ := same
    have one : ∀ removed, tally [a] b removed = if a.removed = removed then 1 else 0 := by
      intro removed
      simp [tally, hk, hm, ho]
    have oneFull : ∀ removed, fullTally [a] b removed =
        if a.removed = removed ∧ a.full = true then 1 else 0 := by
      intro removed
      simp [fullTally, hk, hm, ho]
    have likewise : ∀ removed, tally history a removed = tally history b removed ∧
        fullTally history a removed = fullTally history b removed := by
      intro removed
      unfold tally fullTally
      rw [hk, hm, ho]
      exact ⟨rfl, rfl⟩
    unfold Disciplined at disciplined
    unfold Backed at backed
    rw [(likewise true).1, (likewise false).1] at disciplined
    rw [(likewise true).2, (likewise false).2] at backed
    rw [one, one, oneFull, oneFull]
    cases removed : a.removed with
    | false =>
      simp only [Bool.false_eq_true, if_false, if_true, false_and, true_and]
      omega
    | true =>
      have disciplined := disciplined removed
      cases whole : a.full with
      | false =>
        simp only [Bool.true_eq_false, Bool.false_eq_true, if_false, if_true, and_false]
        omega
      | true =>
        have backed := backed removed whole
        simp only [Bool.true_eq_false, if_false, if_true, and_true]
        omega
  · have none : ∀ removed, tally [a] b removed = 0 ∧ fullTally [a] b removed = 0 := by
      intro removed
      unfold tally fullTally
      rw [countP_eq_zero, countP_eq_zero]
      constructor
      · intro c mem counted
        rw [mem_singleton.mp mem] at counted
        have counted := of_decide_eq_true counted
        exact same ⟨counted.1, counted.2.1, counted.2.2.1⟩
      · intro c mem counted
        rw [mem_singleton.mp mem] at counted
        have counted := of_decide_eq_true counted
        exact same ⟨counted.1, counted.2.1, counted.2.2.1⟩
    rw [(none true).1, (none false).1, (none true).2, (none false).2]
    exact ⟨all, full⟩

theorem Balanced.along {history new : List Announcement} (h : Balanced history)
    (disciplined : Along Disciplined history new) (backed : Along Backed history new) :
    Balanced (history ++ new) := by
  induction new generalizing history with
  | nil =>
    rw [append_nil]
    exact h
  | cons a rest ih =>
    have grown := ih (h.snoc disciplined.1 backed.1) disciplined.2 backed.2
    rw [append_assoc] at grown
    exact grown

end balance

section weights

variable (hashesOf : OffloadKey → List BlockHash) (useInt : Bool) (hash : ExternalBlockHash)
  (medium : String) (ownership : Option String)

def weight (key : OffloadKey) (full : Bool) : Nat :=
  ((if full then hashesOf key else [key.blockHash]).map (maybeConvertBlockHash useInt)).count hash

/-- What an announcement counts for the stores, or the removals, of a medium and an owner. -/
def share (removed : Bool) (a : Announcement) : Nat :=
  if a.removed = removed ∧ a.medium = medium ∧ a.ownership = ownership then
    weight hashesOf useInt hash a.key a.full
  else 0

end weights

section accounts

variable {hashesOf : OffloadKey → List BlockHash} {tracker : OffloadingEventsTracker}
  {hash : ExternalBlockHash} {medium : String} {ownership : Option String}

def Payloads (hashesOf : OffloadKey → List BlockHash) (tracker : OffloadingEventsTracker) : Prop :=
  ∀ key payload, tracker.pendingEventMetadata.get? key = some payload →
    payload.blockHashes = hashesOf key

/-- A tracker keeps which keys have a payload, and their hashes. -/
structure Keeps (hashesOf : OffloadKey → List BlockHash) (tracker tracker' : OffloadingEventsTracker) :
    Prop where
  payloads : Payloads hashesOf tracker'
  known : ∀ key, (tracker'.pendingEventMetadata.get? key).isSome =
    (tracker.pendingEventMetadata.get? key).isSome
  useInt : tracker'.useIntBlockHashes = tracker.useIntBlockHashes

theorem Keeps.refl (h : Payloads hashesOf tracker) : Keeps hashesOf tracker tracker :=
  ⟨h, fun _ => rfl, rfl⟩

variable {tracker' : OffloadingEventsTracker}

theorem Keeps.set (h : Keeps hashesOf tracker tracker')
    {key : OffloadKey} {payload payload' : OffloadEventMetadata}
    (found : tracker'.pendingEventMetadata.get? key = some payload)
    (same : payload'.blockHashes = payload.blockHashes) :
    Keeps hashesOf tracker { tracker' with
      pendingEventMetadata := tracker'.pendingEventMetadata.set key payload' } where
  payloads := fun other value set => by
    rw [PyDict.get?_set] at set
    split at set
    next equal =>
      cases set
      rw [equal, same]
      exact h.payloads key payload found
    · exact h.payloads other value set
  known := fun other => by
    rw [PyDict.get?_set]
    split
    next equal =>
      rw [equal, ← h.known key, found]
      rfl
    · exact h.known other
  useInt := h.useInt

theorem storedCount_append (old new : List KVCacheEvent) :
    storedCount hash medium ownership (old ++ new) =
    storedCount hash medium ownership old + storedCount hash medium ownership new := by
  unfold storedCount
  rw [map_append, sum_append]

theorem removedCount_append (old new : List KVCacheEvent) :
    removedCount hash medium ownership (old ++ new) =
    removedCount hash medium ownership old + removedCount hash medium ownership new := by
  unfold removedCount
  rw [map_append, sum_append]

theorem payload_count (h : Keeps hashesOf tracker tracker')
    (event : OffloadingEvent) (key : OffloadKey) :
    ((match tracker'.pendingEventMetadata.get? key with
      | some payload => payload.blockHashes
      | none => [key.blockHash]).map tracker'.convert).count hash =
        weight hashesOf tracker.useIntBlockHashes hash key (announce tracker event key).full := by
  have conv : tracker'.convert = maybeConvertBlockHash tracker.useIntBlockHashes := by
    unfold convert
    rw [h.useInt]
  have known := h.known key
  unfold weight announce
  dsimp only
  rw [← known, conv]
  cases found : tracker'.pendingEventMetadata.get? key with
  | none => rfl
  | some payload =>
    dsimp only
    rw [h.payloads key payload found]
    rfl

theorem storedCount_one (e : BlockStored) : storedCount hash medium ownership [.blockStored e] =
    (if e.medium = medium ∧ e.ownership = ownership then e.blockHashes.count hash else 0) ∧
    removedCount hash medium ownership [.blockStored e] = 0 :=
  ⟨Nat.add_zero _, rfl⟩

variable (hash medium ownership) {event : OffloadingEvent}

theorem takeStoredKey_spec (h : Keeps hashesOf tracker tracker')
    (stored : event.removed = false) (key : OffloadKey) :
    Keeps hashesOf tracker (takeStoredKey tracker' event key).1 ∧
    storedCount hash medium ownership [(takeStoredKey tracker' event key).2] =
    share hashesOf tracker.useIntBlockHashes hash medium ownership false
    (announce tracker event key) ∧
    removedCount hash medium ownership [(takeStoredKey tracker' event key).2] = 0 := by
  have count : _ = weight hashesOf tracker.useIntBlockHashes hash key
    (announce tracker event key).full := payload_count h event key
  have shared : share hashesOf tracker.useIntBlockHashes hash medium ownership false
      (announce tracker event key) =
        if event.medium.toEventStr = medium ∧ event.ownership = ownership then
          weight hashesOf tracker.useIntBlockHashes hash key (announce tracker event key).full
        else 0 := by
    unfold share
    simp only [announce, stored, true_and]
  rw [shared, ← count]
  unfold takeStoredKey
  cases found : tracker'.pendingEventMetadata.get? key with
  | none =>
    dsimp only
    rw [(storedCount_one _).1, (storedCount_one _).2]
    exact ⟨h, rfl, rfl⟩
  | some payload =>
    dsimp only
    rw [(storedCount_one _).1, (storedCount_one _).2]
    refine ⟨h.set found ?_, ?_, rfl⟩
    · split <;> rfl
    · have same : (if event.removalExpected = true then { payload with
          activeResidencies := insert (event.medium, event.ownership) payload.activeResidencies }
        else payload).blockHashes = payload.blockHashes := by
        split <;> rfl
      rw [same]

theorem takeStoredEvent_spec (h : Payloads hashesOf tracker) (stored : event.removed = false) :
    Keeps hashesOf tracker (takeStoredEvent tracker event).1 ∧
    storedCount hash medium ownership (takeStoredEvent tracker event).2 =
    ((event.keys.map (announce tracker event)).map
    (share hashesOf tracker.useIntBlockHashes hash medium ownership false)).sum ∧
    removedCount hash medium ownership (takeStoredEvent tracker event).2 = 0 := by
  have loop : ∀ (keys : List OffloadKey) (tracker' : OffloadingEventsTracker)
      (out : List KVCacheEvent), Keeps hashesOf tracker tracker' →
      Keeps hashesOf tracker (keys.foldl (fun (st : OffloadingEventsTracker × List KVCacheEvent) key =>
        ((takeStoredKey st.1 event key).1, st.2 ++ [(takeStoredKey st.1 event key).2])) (tracker', out)).1 ∧
      storedCount hash medium ownership (keys.foldl (fun (st : OffloadingEventsTracker × List KVCacheEvent) key =>
        ((takeStoredKey st.1 event key).1, st.2 ++ [(takeStoredKey st.1 event key).2])) (tracker', out)).2 =
          storedCount hash medium ownership out + ((keys.map (announce tracker event)).map
            (share hashesOf tracker.useIntBlockHashes hash medium ownership false)).sum ∧
      removedCount hash medium ownership (keys.foldl (fun (st : OffloadingEventsTracker × List KVCacheEvent) key =>
        ((takeStoredKey st.1 event key).1, st.2 ++ [(takeStoredKey st.1 event key).2])) (tracker', out)).2 =
          removedCount hash medium ownership out := by
    intro keys
    induction keys with
    | nil => exact fun tracker' out kept => ⟨kept, rfl, rfl⟩
    | cons key rest ih =>
      intro tracker' out kept
      obtain ⟨kept', one, zero⟩ := takeStoredKey_spec hash medium ownership kept stored key
      obtain ⟨kept'', all, zero'⟩ := ih _ (out ++ [(takeStoredKey tracker' event key).2]) kept'
      rw [storedCount_append, one, Nat.add_assoc] at all
      rw [removedCount_append, zero, Nat.add_zero] at zero'
      exact ⟨kept'', all, zero'⟩
  obtain ⟨kept, all, zero⟩ := loop event.keys tracker [] (.refl h)
  exact ⟨kept, all.trans (Nat.zero_add _), zero⟩

theorem extendGroup_total (byGroup : PyDict Nat (List ExternalBlockHash)) (groupIdx : Nat)
    (hashes : List ExternalBlockHash) :
    (extendGroup byGroup groupIdx hashes).total (List.count hash) =
    byGroup.total (List.count hash) + hashes.count hash := by
  have total := byGroup.total_set (List.count hash) groupIdx
    ((byGroup.get? groupIdx).getD [] ++ hashes)
  rw [count_append] at total
  unfold extendGroup
  cases found : byGroup.get? groupIdx with
  | none =>
    rw [found] at total
    simp only [Option.elim_none, Option.getD_none, count_nil] at total ⊢
    omega
  | some old =>
    rw [found] at total
    simp only [Option.elim_some, Option.getD_some] at total ⊢
    omega

theorem takeRemovedKey_spec
    (h : Keeps hashesOf tracker tracker') (event : OffloadingEvent) (key : OffloadKey)
    (byGroup : PyDict Nat (List ExternalBlockHash)) :
    Keeps hashesOf tracker (takeRemovedKey tracker' event key byGroup).1 ∧
    (takeRemovedKey tracker' event key byGroup).2.total (List.count hash) =
    byGroup.total (List.count hash) + weight hashesOf tracker.useIntBlockHashes hash key
    (announce tracker event key).full := by
  rw [← payload_count h event key]
  unfold takeRemovedKey
  cases found : tracker'.pendingEventMetadata.get? key with
  | none => exact ⟨h, extendGroup_total hash _ _ _⟩
  | some payload => exact ⟨h.set found rfl, extendGroup_total hash _ _ _⟩

section

variable (h : Payloads hashesOf tracker)
include h

theorem takeRemovedEvent_spec (removed : event.removed = true) :
    Keeps hashesOf tracker (takeRemovedEvent tracker event).1 ∧
    removedCount hash medium ownership (takeRemovedEvent tracker event).2 =
    ((event.keys.map (announce tracker event)).map
    (share hashesOf tracker.useIntBlockHashes hash medium ownership true)).sum ∧
    storedCount hash medium ownership (takeRemovedEvent tracker event).2 = 0 := by
  have loop : ∀ (keys : List OffloadKey) (tracker' : OffloadingEventsTracker)
      (byGroup : PyDict Nat (List ExternalBlockHash)), Keeps hashesOf tracker tracker' →
      Keeps hashesOf tracker (keys.foldl (fun (st : OffloadingEventsTracker × PyDict Nat (List ExternalBlockHash)) key =>
        takeRemovedKey st.1 event key st.2) (tracker', byGroup)).1 ∧
      (keys.foldl (fun (st : OffloadingEventsTracker × PyDict Nat (List ExternalBlockHash)) key =>
        takeRemovedKey st.1 event key st.2) (tracker', byGroup)).2.total (List.count hash) =
          byGroup.total (List.count hash) + (keys.map fun key =>
            weight hashesOf tracker.useIntBlockHashes hash key
              (announce tracker event key).full).sum := by
    intro keys
    induction keys with
    | nil => exact fun tracker' byGroup kept => ⟨kept, rfl⟩
    | cons key rest ih =>
      intro tracker' byGroup kept
      obtain ⟨kept', one⟩ := takeRemovedKey_spec hash kept event key byGroup
      obtain ⟨kept'', all⟩ := ih _ (takeRemovedKey tracker' event key byGroup).2 kept'
      rw [one, Nat.add_assoc] at all
      exact ⟨kept'', all⟩
  obtain ⟨kept, all⟩ := loop event.keys tracker .empty (.refl h)
  rw [PyDict.total_empty, Nat.zero_add] at all
  have shared : (event.keys.map (announce tracker event)).map
      (share hashesOf tracker.useIntBlockHashes hash medium ownership true) =
        event.keys.map fun key =>
          if event.medium.toEventStr = medium ∧ event.ownership = ownership then
            weight hashesOf tracker.useIntBlockHashes hash key (announce tracker event key).full
          else 0 := by
    rw [map_map]
    refine map_congr_left fun key _ => ?_
    unfold share
    simp only [Function.comp_apply, announce, removed, true_and]
  refine ⟨kept, ?_, ?_⟩
  · rw [shared]
    unfold takeRemovedEvent removedCount
    dsimp only
    rw [map_map]
    by_cases counted : event.medium.toEventStr = medium ∧ event.ownership = ownership
    · simp only [Function.comp_def, counted, and_self, if_true]
      exact all
    · have nothing : ∀ f : OffloadKey → Nat, (event.keys.map fun key =>
          if event.medium.toEventStr = medium ∧ event.ownership = ownership then f key else 0).sum =
            0 := fun f => by
        refine sum_eq_zero fun n mem => ?_
        obtain ⟨key, _, rfl⟩ := mem_map.mp mem
        exact if_neg counted
      rw [nothing]
      refine sum_eq_zero fun n mem => ?_
      obtain ⟨item, _, rfl⟩ := mem_map.mp mem
      exact if_neg counted
  · unfold takeRemovedEvent storedCount
    dsimp only
    rw [map_map]
    refine sum_eq_zero fun n mem => ?_
    obtain ⟨item, _, rfl⟩ := mem_map.mp mem
    rfl

theorem takeEvent_spec (event : OffloadingEvent) :
    Payloads hashesOf (takeEvent tracker event).1 ∧
    (takeEvent tracker event).1.useIntBlockHashes = tracker.useIntBlockHashes ∧
    storedCount hash medium ownership (takeEvent tracker event).2 =
    ((event.keys.map (announce tracker event)).map
    (share hashesOf tracker.useIntBlockHashes hash medium ownership false)).sum ∧
    removedCount hash medium ownership (takeEvent tracker event).2 =
    ((event.keys.map (announce tracker event)).map
    (share hashesOf tracker.useIntBlockHashes hash medium ownership true)).sum := by
  -- the announcements of an event are all stores or all removals
  have other : ∀ removed, event.removed ≠ removed → ((event.keys.map (announce tracker event)).map
      (share hashesOf tracker.useIntBlockHashes hash medium ownership removed)).sum = 0 := by
    intro removed differ
    refine sum_eq_zero fun n mem => ?_
    obtain ⟨a, listed, rfl⟩ := mem_map.mp mem
    obtain ⟨key, _, rfl⟩ := mem_map.mp listed
    exact if_neg fun counted => differ counted.1
  unfold takeEvent
  cases kind : event.removed with
  | false =>
    obtain ⟨kept, stored, removed⟩ := takeStoredEvent_spec hash medium ownership h kind
    rw [other true (by rw [kind]; exact Bool.false_ne_true)]
    exact ⟨kept.payloads, kept.useInt, stored, removed⟩
  | true =>
    obtain ⟨kept, removed, stored⟩ := takeRemovedEvent_spec hash medium ownership h kind
    rw [other false (by rw [kind]; exact Bool.noConfusion)]
    exact ⟨kept.payloads, kept.useInt, stored, removed⟩

theorem dropRemoved_payloads (keys : List OffloadKey) :
    Payloads hashesOf (keys.foldl dropRemoved tracker) ∧
    (keys.foldl dropRemoved tracker).useIntBlockHashes = tracker.useIntBlockHashes := by
  induction keys generalizing tracker with
  | nil => exact ⟨h, rfl⟩
  | cons key rest ih =>
    have dropped : Payloads hashesOf (dropRemoved tracker key) ∧
        (dropRemoved tracker key).useIntBlockHashes = tracker.useIntBlockHashes := by
      unfold dropRemoved
      split
      · split
        · refine ⟨fun other payload found => ?_, rfl⟩
          rw [PyDict.get?_pop] at found
          split at found
          · cases found
          · exact h other payload found
        · exact ⟨h, rfl⟩
      · exact ⟨h, rfl⟩
    obtain ⟨payloads, useInt⟩ := ih dropped.1
    exact ⟨payloads, useInt.trans dropped.2⟩

theorem takeEvents_spec (events : List OffloadingEvent) :
    Payloads hashesOf (tracker.takeEvents events).1 ∧
    (tracker.takeEvents events).1.useIntBlockHashes = tracker.useIntBlockHashes ∧
    storedCount hash medium ownership (tracker.takeEvents events).2 =
    ((announcements tracker events).map
    (share hashesOf tracker.useIntBlockHashes hash medium ownership false)).sum ∧
    removedCount hash medium ownership (tracker.takeEvents events).2 =
    ((announcements tracker events).map
    (share hashesOf tracker.useIntBlockHashes hash medium ownership true)).sum := by
  have loop : ∀ (events : List OffloadingEvent) (t : OffloadingEventsTracker)
      (out : List KVCacheEvent), Payloads hashesOf t →
      t.useIntBlockHashes = tracker.useIntBlockHashes →
      Payloads hashesOf (events.foldl (fun (st : OffloadingEventsTracker × List KVCacheEvent) event =>
        ((takeEvent st.1 event).1, st.2 ++ (takeEvent st.1 event).2)) (t, out)).1 ∧
      (events.foldl (fun (st : OffloadingEventsTracker × List KVCacheEvent) event =>
        ((takeEvent st.1 event).1, st.2 ++ (takeEvent st.1 event).2)) (t, out)).1.useIntBlockHashes = tracker.useIntBlockHashes ∧
      storedCount hash medium ownership (events.foldl (fun (st : OffloadingEventsTracker × List KVCacheEvent) event =>
        ((takeEvent st.1 event).1, st.2 ++ (takeEvent st.1 event).2)) (t, out)).2 = storedCount hash medium ownership out +
          ((announcements t events).map
            (share hashesOf tracker.useIntBlockHashes hash medium ownership false)).sum ∧
      removedCount hash medium ownership (events.foldl (fun (st : OffloadingEventsTracker × List KVCacheEvent) event =>
        ((takeEvent st.1 event).1, st.2 ++ (takeEvent st.1 event).2)) (t, out)).2 = removedCount hash medium ownership out +
          ((announcements t events).map
            (share hashesOf tracker.useIntBlockHashes hash medium ownership true)).sum := by
    intro events
    induction events with
    | nil => exact fun t out payloads useInt => ⟨payloads, useInt, rfl, rfl⟩
    | cons event rest ih =>
      intro t out payloads useInt
      obtain ⟨payloads', useInt', stored, removed⟩ :=
        takeEvent_spec hash medium ownership payloads event
      obtain ⟨payloads'', useInt'', stored', removed'⟩ :=
        ih _ (out ++ (takeEvent t event).2) payloads' (useInt'.trans useInt)
      rw [storedCount_append, stored, useInt, Nat.add_assoc] at stored'
      rw [removedCount_append, removed, useInt, Nat.add_assoc] at removed'
      unfold announcements
      rw [map_append, sum_append, map_append, sum_append]
      exact ⟨payloads'', useInt'', stored', removed'⟩
  obtain ⟨payloads, useInt, stored, removed⟩ := loop events tracker [] h rfl
  obtain ⟨payloads', useInt'⟩ := dropRemoved_payloads payloads (tracker.removedKeys events)
  exact ⟨payloads', useInt'.trans useInt, stored.trans (Nat.zero_add _),
    removed.trans (Nat.zero_add _)⟩

end

end accounts

section runs

variable {hashesOf : OffloadKey → List BlockHash} {tracker tracker' : OffloadingEventsTracker}

variable {key : OffloadKey}

theorem Payloads.set (h : Payloads hashesOf tracker)
    {payload : OffloadEventMetadata} (named : payload.blockHashes = hashesOf key) :
    Payloads hashesOf { tracker with
      pendingEventMetadata := tracker.pendingEventMetadata.set key payload } := by
  intro other value found
  rw [PyDict.get?_set] at found
  split at found
  next equal =>
    cases found
    rw [equal, named]
  · exact h other value found

theorem recordStore_payloads (h : Payloads hashesOf tracker) {req : Request}
    {groupConfig : GroupOffloadConfig} {chunkIdx : Nat}
    (named : Named hashesOf req groupConfig chunkIdx key)
    (done : tracker.recordStore req groupConfig chunkIdx key = .ok tracker') :
    Payloads hashesOf tracker' ∧ tracker'.useIntBlockHashes = tracker.useIntBlockHashes := by
  unfold recordStore at done
  split at done
  · cases done
    exact ⟨h, rfl⟩
  · split at done
    · cases done
      exact ⟨h, rfl⟩
    · obtain ⟨built, hbuilt, done⟩ := bind_eq_ok.mp done
      cases done
      refine ⟨h.set ?_, rfl⟩
      split
      · exact named built hbuilt
      · exact named built hbuilt

theorem recordLookup_payloads (h : Payloads hashesOf tracker) {req : Request}
    {groupConfig : GroupOffloadConfig} {chunkIdx : Nat}
    (named : Named hashesOf req groupConfig chunkIdx key)
    (done : tracker.recordLookup req groupConfig chunkIdx key = .ok tracker') :
    Payloads hashesOf tracker' ∧ tracker'.useIntBlockHashes = tracker.useIntBlockHashes := by
  unfold recordLookup at done
  split at done
  · cases done
    exact ⟨h, rfl⟩
  · split at done
    · cases done
      exact ⟨h, rfl⟩
    · split at done
      · cases done
        exact ⟨h, rfl⟩
      · obtain ⟨built, hbuilt, done⟩ := bind_eq_ok.mp done
        cases done
        exact ⟨h.set (named built hbuilt), rfl⟩

/-- What is emitted counts as the announcements do, and these are balanced. -/
structure Accounted (hashesOf : OffloadKey → List BlockHash) (s : Log) : Prop where
  payloads : Payloads hashesOf s.tracker
  stored : ∀ hash medium ownership, storedCount hash medium ownership s.emitted =
    (s.history.map
      (share hashesOf s.tracker.useIntBlockHashes hash medium ownership false)).sum
  removed : ∀ hash medium ownership, removedCount hash medium ownership s.emitted =
    (s.history.map
      (share hashesOf s.tracker.useIntBlockHashes hash medium ownership true)).sum
  balanced : Balanced s.history

theorem Accounted.step {s s' : Log} {call : Call} (h : Accounted hashesOf s)
    (step : Step hashesOf s call s') (sound : Sound s call) : Accounted hashesOf s' := by
  cases step with
  | recordStore named done =>
    obtain ⟨payloads, useInt⟩ := recordStore_payloads h.payloads named done
    exact ⟨payloads, useInt ▸ h.stored, useInt ▸ h.removed, h.balanced⟩
  | recordLookup named done =>
    obtain ⟨payloads, useInt⟩ := recordLookup_payloads h.payloads named done
    exact ⟨payloads, useInt ▸ h.stored, useInt ▸ h.removed, h.balanced⟩
  | @takeEvents events disciplined =>
    have spec := fun hash medium ownership =>
      takeEvents_spec hash medium ownership h.payloads events
    obtain ⟨payloads, useInt, _⟩ := spec (.int 0) "" none
    refine ⟨payloads, fun hash medium ownership => ?_, fun hash medium ownership => ?_,
      h.balanced.along disciplined sound⟩
    · obtain ⟨_, _, stored, _⟩ := spec hash medium ownership
      rw [storedCount_append, h.stored, stored, useInt, map_append, sum_append]
    · obtain ⟨_, _, _, removed⟩ := spec hash medium ownership
      rw [removedCount_append, h.removed, removed, useInt, map_append, sum_append]
  | reset =>
    refine ⟨fun key payload found => ?_, h.stored, h.removed, h.balanced⟩
    rw [show s.tracker.reset.pendingEventMetadata = .empty from rfl, PyDict.get?_empty] at found
    cases found

def chunkKey : OffloadKey := ⟨[2], 0⟩

def chunkHashes (key : OffloadKey) : List BlockHash :=
  if key = chunkKey then [[1], [2]] else [key.blockHash]

/-- The store, or the removal, of the chunk in the primary tier. -/
def chunkEvent (removed : Bool) : OffloadingEvent where
  keys := [chunkKey]
  medium := .cpu
  removed := removed

def taken (s : Log) (removed : Bool) : Log where
  tracker := (s.tracker.takeEvents [chunkEvent removed]).1
  emitted := s.emitted ++ (s.tracker.takeEvents [chunkEvent removed]).2
  history := s.history ++ announcements s.tracker [chunkEvent removed]

end runs

end VllmAmpere.OffloadEvents
