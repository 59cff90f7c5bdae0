import VllmAmpere.ClientRole
import VllmAmpere.TransitionSystem

/-! The lookups a client role sends and the fetches that close them at the peer. -/

open List

namespace VllmAmpere.P2P

variable (kvRequestId : String)

def Closes (roundSeq : Nat) : Msg → Prop
  | .fetch id keys _ r => id = kvRequestId ∧ (keys = [] ∨ r = roundSeq)
  | _ => False

def IsLookup (roundSeq : Nat) (msg : Msg) : Prop :=
  ∃ keys, msg = .lookup kvRequestId keys roundSeq

def OpenLookup (roundSeq : Nat) (sent : List Msg) : Prop :=
  ∃ before msg after, sent = before ++ msg :: after ∧ IsLookup kvRequestId roundSeq msg ∧
    ∀ later ∈ after, ¬Closes kvRequestId roundSeq later

def LookupsClosed (sent : List Msg) : Prop :=
  ∀ before keys roundSeq after, sent = before ++ .lookup kvRequestId keys roundSeq :: after →
    ∃ msg ∈ after, Closes kvRequestId roundSeq msg

section

variable {kvRequestId : String} {roundSeq : Nat} {sent : List Msg}

theorem openLookup_snoc (msg : Msg) : OpenLookup kvRequestId roundSeq (sent ++ [msg]) ↔
    IsLookup kvRequestId roundSeq msg ∨
    OpenLookup kvRequestId roundSeq sent ∧ ¬Closes kvRequestId roundSeq msg := by
  constructor
  · rintro ⟨before, found, after, split, lookup, kept⟩
    rcases eq_nil_or_concat after with rfl | ⟨after, last, rfl⟩
    · have last := append_inj_right' (split.trans rfl) rfl
      exact .inl (singleton_inj.mp last ▸ lookup)
    · rw [concat_eq_append] at split kept
      rw [← cons_append, ← append_assoc] at split
      have ⟨same, ends⟩ := append_inj' split rfl
      refine .inr ⟨⟨before, found, after, same, lookup, fun later hlater => ?_⟩, ?_⟩
      · exact kept later (mem_append_left _ hlater)
      · rw [singleton_inj.mp ends]
        exact kept last (mem_append_right _ (by simp))
  · rintro (lookup | ⟨⟨before, found, after, rfl, lookup, kept⟩, notClosed⟩)
    · exact ⟨sent, msg, [], rfl, lookup, by simp⟩
    · refine ⟨before, found, after ++ [msg], by simp, lookup, fun later hlater => ?_⟩
      rcases mem_append.mp hlater with hlater | hlater
      · exact kept later hlater
      · exact mem_singleton.mp hlater ▸ notClosed

theorem lookupsClosed_of_not_open
    (h : ∀ roundSeq, ¬OpenLookup kvRequestId roundSeq sent) : LookupsClosed kvRequestId sent := by
  intro before keys roundSeq after split
  by_contra none
  refine h roundSeq ⟨before, _, after, split, ⟨keys, rfl⟩, fun later hlater closes => ?_⟩
  exact none ⟨later, hlater, closes⟩

end

namespace ClientRole

variable {c c' : ClientRole} {kvRequestId : String}

/-- What an entry holds of its lookups: the probes, the unsent keys, the round, and
whether the peer has lookups of it. -/
def lookupState (c : ClientRole) (kvRequestId : String) :
    Option (PyDict OffloadKey (Option Bool) × List OffloadKey × Nat × Bool) :=
  (c.requests.get? kvRequestId).map fun st =>
    (st.probes, st.unsent, st.roundSeq, st.peerLookupOpen)

def HoldsOpen (c : ClientRole) (kvRequestId : String) (roundSeq : Nat) : Prop :=
  ∃ probes unsent, c.lookupState kvRequestId = some (probes, unsent, roundSeq, true)

def Tracks (c : ClientRole) : Prop :=
  ∀ kvRequestId roundSeq, OpenLookup kvRequestId roundSeq c.outbox →
    c.HoldsOpen kvRequestId roundSeq

/-- An entry without probes and unsent keys has no lookups at the peer. -/
def Prunable (c : ClientRole) (kvRequestId : String) : Prop :=
  ∀ probes unsent roundSeq isOpen,
    c.lookupState kvRequestId = some (probes, unsent, roundSeq, isOpen) →
      probes.items = [] → unsent = [] → isOpen = false

theorem lookupState_setRequest (st : ClientRequestState) (id : String) :
    (c.setRequest kvRequestId st).lookupState id =
    if id = kvRequestId then some (st.probes, st.unsent, st.roundSeq, st.peerLookupOpen)
    else c.lookupState id := by
  unfold lookupState setRequest
  rw [PyDict.get?_set]
  split <;> rfl

variable {st : ClientRequestState}

theorem lookupState_of_get
    (found : c.requests.get? kvRequestId = some st) : c.lookupState kvRequestId =
    some (st.probes, st.unsent, st.roundSeq, st.peerLookupOpen) := by
  rw [lookupState, found]
  rfl

theorem request_of_get (found : c.requests.get? kvRequestId = some st) : c.request kvRequestId = st := by
  rw [request, found]
  rfl

theorem HoldsOpen.request {roundSeq : Nat} (held : c.HoldsOpen kvRequestId roundSeq) :
    (c.request kvRequestId).roundSeq = roundSeq ∧
    (c.request kvRequestId).peerLookupOpen = true := by
  have ⟨probes, unsent, state⟩ := held
  unfold lookupState at state
  cases found : c.requests.get? kvRequestId with
  | none => simp [found] at state
  | some st =>
    rw [request_of_get found]
    simp only [found, Option.map_some, Option.some.injEq, Prod.mk.injEq] at state
    exact state.2.2

/-- A change that sends no lookup and leaves the lookups of all entries as they are. -/
structure SameLookups (c c' : ClientRole) : Prop where
  state : ∀ id, c'.lookupState id = c.lookupState id
  sent : ∀ id roundSeq, OpenLookup id roundSeq c'.outbox → OpenLookup id roundSeq c.outbox

theorem SameLookups.refl : SameLookups c c := ⟨fun _ => rfl, fun _ _ h => h⟩

theorem SameLookups.trans {d : ClientRole} (first : SameLookups c c') (second : SameLookups c' d) :
    SameLookups c d :=
  ⟨fun id => (second.state id).trans (first.state id),
    fun id roundSeq h => first.sent id roundSeq (second.sent id roundSeq h)⟩

theorem SameLookups.tracks (same : SameLookups c c') (h : c.Tracks) : c'.Tracks := by
  intro id roundSeq isOpen
  have ⟨probes, unsent, found⟩ := h id roundSeq (same.sent id roundSeq isOpen)
  exact ⟨probes, unsent, (same.state id).trans found⟩

theorem SameLookups.prunable (same : SameLookups c c') (h : c.Prunable kvRequestId) :
    c'.Prunable kvRequestId := by
  intro probes unsent roundSeq isOpen found
  exact h probes unsent roundSeq isOpen ((same.state kvRequestId) ▸ found)

theorem sameLookups_send (msg : Msg) (quiet : ∀ id roundSeq, ¬IsLookup id roundSeq msg) :
    SameLookups c (c.send msg) := by
  refine ⟨fun _ => rfl, fun id roundSeq h => ?_⟩
  rcases (openLookup_snoc msg).mp h with lookup | h
  · exact absurd lookup (quiet id roundSeq)
  · exact h.1

theorem sameLookups_setRequest {st st' : ClientRequestState}
    (found : c.requests.get? kvRequestId = some st)
    (same : (st'.probes, st'.unsent, st'.roundSeq, st'.peerLookupOpen) =
    (st.probes, st.unsent, st.roundSeq, st.peerLookupOpen)) :
    SameLookups c (c.setRequest kvRequestId st') := by
  refine ⟨fun id => ?_, fun _ _ h => h⟩
  rw [lookupState_setRequest]
  split
  next e => rw [e, lookupState_of_get found, same]
  next => exact rfl

theorem abortFetch_quiet (id : String) (roundSeq : Nat) (id' : String) (roundSeq' : Nat) :
    ¬IsLookup id' roundSeq' (.abortFetch id roundSeq) := by
  rintro ⟨keys, e⟩
  cases e

theorem abortLoads_sameLookups (clock : Nat → Time) (loads : List (Nat × InboundLoadState))
    (found : c.requests.get? kvRequestId = some st) :
    SameLookups c (c.abortLoads kvRequestId clock loads) := by
  induction loads generalizing c st with
  | nil => exact .refl
  | cons item rest ih =>
    obtain ⟨roundSeq, load⟩ := item
    unfold abortLoads
    split
    · exact ih found
    · have sent : SameLookups c (c.send (.abortFetch kvRequestId roundSeq)) :=
        sameLookups_send _ (abortFetch_quiet _ _)
      have entry : (c.send (.abortFetch kvRequestId roundSeq)).request kvRequestId = st :=
        request_of_get found
      dsimp only
      rw [entry]
      refine (sent.trans ?_).trans (ih (PyDict.get?_set_self _ _ _))
      exact sameLookups_setRequest found rfl

theorem tracks_maybePrune (h : c.Tracks) (prunable : c.Prunable kvRequestId) :
    (c.maybePrune kvRequestId).Tracks := by
  unfold maybePrune
  split
  next st found =>
    split
    next idle =>
      simp only [Bool.and_eq_true, List.isEmpty_iff] at idle
      intro id roundSeq isOpen
      have ⟨probes, unsent, held⟩ := h id roundSeq isOpen
      refine ⟨probes, unsent, ?_⟩
      rw [lookupState, PyDict.get?_pop]
      split
      next e =>
        rw [e, lookupState_of_get found] at held
        have flag := prunable _ _ _ _ (lookupState_of_get found) idle.1.2 idle.2
        simp [flag] at held
      next => exact held
    next => exact h
  next => exact h

theorem tracks_onLoadTerminal (h : c.Tracks)
    (prunable : (c.request kvRequestId).loads.items = [] → c.Prunable kvRequestId) :
    (c.onLoadTerminal kvRequestId).Tracks := by
  unfold onLoadTerminal
  split
  next => exact h
  next idle =>
    refine tracks_maybePrune h (prunable ?_)
    simpa using idle

/-- If the round's load is the last of its entry and the entry has no probes and no unsent
keys, the peer has no lookups of it. -/
def EndsTracked (c : ClientRole) (kvRequestId : String) (roundSeq : Nat) : Prop :=
  ∀ st, c.requests.get? kvRequestId = some st → (st.loads.get? roundSeq).isSome →
    (st.loads.pop roundSeq).items = [] → st.probes.items = [] → st.unsent = [] →
      st.peerLookupOpen = false

theorem tracks_completeLoad (roundSeq : Nat) (success : Bool) (h : c.Tracks)
    (tracked : c.EndsTracked kvRequestId roundSeq) :
    (c.completeLoad kvRequestId roundSeq success).Tracks := by
  unfold completeLoad
  split
  · exact h
  next st found =>
    split
    · exact h
    next load hload =>
      have same : SameLookups c
          (c.setRequest kvRequestId { st with loads := st.loads.pop roundSeq }) :=
        sameLookups_setRequest found rfl
      refine tracks_onLoadTerminal (same.tracks h) fun last => ?_
      change (c.setRequest kvRequestId { st with loads := st.loads.pop roundSeq }).Prunable
        kvRequestId
      refine same.prunable fun probes unsent seq isOpen state noProbes noUnsent => ?_
      rw [lookupState_of_get found] at state
      simp only [Option.some.injEq, Prod.mk.injEq] at state
      obtain ⟨rfl, rfl, -, rfl⟩ := state
      refine tracked st found (by rw [hload]; rfl) ?_ noProbes noUnsent
      change ((c.setRequest kvRequestId
        { st with loads := st.loads.pop roundSeq }).request kvRequestId).loads.items = [] at last
      rwa [request_of_get (PyDict.get?_set_self _ _ _)] at last

theorem tracks_registerLookup (key : OffloadKey) (h : c.Tracks) :
    (c.registerLookup kvRequestId key).2.Tracks := by
  -- the round and the flag of the entry stay, and no message is sent
  have kept : ∀ st : ClientRequestState, st.roundSeq = (c.request kvRequestId).roundSeq →
      st.peerLookupOpen = (c.request kvRequestId).peerLookupOpen →
      (c.setRequest kvRequestId st).Tracks := by
    intro st round flag id roundSeq isOpen
    have held := h id roundSeq isOpen
    unfold HoldsOpen
    rw [lookupState_setRequest]
    split
    next e =>
      subst e
      exact ⟨st.probes, st.unsent, by rw [round, flag, held.request.1, held.request.2]⟩
    next => exact held
  unfold registerLookup
  dsimp only
  split
  · exact kept _ rfl rfl
  · exact kept _ rfl rfl

theorem tracks_flushRequest (reqId : String) (h : c.Tracks) : (c.flushRequest reqId).Tracks := by
  unfold flushRequest
  split
  · exact h
  next st found =>
    split
    · exact h
    · intro id roundSeq isOpen
      unfold HoldsOpen
      rw [lookupState_setRequest]
      rcases (openLookup_snoc _).mp isOpen with ⟨keys, e⟩ | ⟨before, -⟩
      · cases e
        exact ⟨_, _, if_pos rfl⟩
      · have ⟨probes, unsent, held⟩ := h id roundSeq before
        split
        next e =>
          rw [e, lookupState_of_get found] at held
          simp only [Option.some.injEq, Prod.mk.injEq] at held
          exact ⟨_, _, by rw [held.2.2.1]⟩
        next => exact ⟨probes, unsent, held⟩

theorem tracks_flushPendingLookups (h : c.Tracks) : c.flushPendingLookups.Tracks := by
  have flushed : ∀ (ids : List String) (c : ClientRole), c.Tracks →
      (ids.foldl flushRequest c).Tracks := by
    intro ids
    induction ids with
    | nil => exact fun c h => h
    | cons id rest ih => exact fun c h => ih _ (tracks_flushRequest id h)
  exact flushed c.flushPending c h

theorem tracks_of_fetch {keys : List OffloadKey} {idxs : List Nat} {roundSeq : Nat}
    (round : keys = [] ∨ roundSeq = (c.request kvRequestId).roundSeq) (h : c.Tracks)
    (sent : c'.outbox = c.outbox ++ [.fetch kvRequestId keys idxs roundSeq])
    (others : ∀ id, id ≠ kvRequestId → c'.lookupState id = c.lookupState id) :
    c'.Tracks ∧ ∀ roundSeq, ¬OpenLookup kvRequestId roundSeq c'.outbox := by
  have closed : ∀ roundSeq, ¬OpenLookup kvRequestId roundSeq c'.outbox := by
    intro roundSeq isOpen
    rw [sent, openLookup_snoc] at isOpen
    rcases isOpen with ⟨keys, e⟩ | ⟨before, notClosed⟩
    · cases e
    · have holds := (h kvRequestId roundSeq before).request.1
      exact notClosed ⟨rfl, round.imp_right (holds ▸ ·)⟩
  refine ⟨fun id roundSeq isOpen => ?_, closed⟩
  by_cases e : id = kvRequestId
  · exact absurd (e ▸ isOpen) (closed roundSeq)
  · rw [sent, openLookup_snoc] at isOpen
    rcases isOpen with ⟨keys, e⟩ | ⟨before, -⟩
    · cases e
    · have ⟨probes, unsent, held⟩ := h id roundSeq before
      exact ⟨probes, unsent, (others id e).trans held⟩

theorem lookupState_setRequest_ne {id : String} (ne : id ≠ kvRequestId) :
    (c.setRequest kvRequestId st).lookupState id = c.lookupState id := by
  rw [lookupState_setRequest, if_neg ne]

theorem tracks_requestBlocks (jobId : JobId) (keys : List OffloadKey) (blockIds : List Nat)
    (t : Time) (h : c.Tracks) :
    ((requestBlocks jobId kvRequestId keys blockIds t).run c).2.Tracks := by
  suffices ((requestBlocks jobId kvRequestId keys blockIds t).run c).2.outbox = c.outbox ++
        [.fetch kvRequestId keys blockIds (c.request kvRequestId).roundSeq] ∧
      ∀ id, id ≠ kvRequestId →
        ((requestBlocks jobId kvRequestId keys blockIds t).run c).2.lookupState id =
          c.lookupState id from (tracks_of_fetch (.inr rfl) h this.1 this.2).1
  unfold requestBlocks
  rw [PyM.run_get_bind]
  dsimp only
  rw [PyM.run_set_bind]
  split
  · simp only [PyM.run_bind, PyM.run_lift]
    split
    next hprobes =>
      obtain ⟨-, rfl⟩ := Prod.mk.inj hprobes
      split
      next => exact ⟨rfl, fun id ne =>
        (lookupState_setRequest_ne ne).trans (lookupState_setRequest_ne ne)⟩
      next hkeys =>
        obtain ⟨-, rfl⟩ := Prod.mk.inj hkeys
        exact ⟨rfl, fun id ne => lookupState_setRequest_ne ne⟩
    next hprobes =>
      obtain ⟨-, rfl⟩ := Prod.mk.inj hprobes
      exact ⟨rfl, fun id ne => lookupState_setRequest_ne ne⟩
  · exact ⟨rfl, fun id ne => (lookupState_setRequest_ne ne).trans (lookupState_setRequest_ne ne)⟩

theorem tracks_onLookupResp (keys : List OffloadKey) (hits : List Bool) (h : c.Tracks) :
    (c.onLookupResp kvRequestId keys hits).Tracks := by
  unfold onLookupResp
  split
  · exact h
  next st found =>
    intro id roundSeq isOpen
    have held := h id roundSeq isOpen
    unfold HoldsOpen
    rw [lookupState_setRequest]
    split
    next e =>
      have entry := held.request
      rw [e, request_of_get found] at entry
      exact ⟨_, _, by rw [entry.1, entry.2]⟩
    next => exact held

theorem maybePrune_outbox : (c.maybePrune kvRequestId).outbox = c.outbox := by
  unfold maybePrune
  split
  · split <;> rfl
  · rfl

theorem tracks_emptied (flushPending : List String) (h : c.Tracks)
    (closed : ∀ roundSeq, ¬OpenLookup kvRequestId roundSeq c.outbox) :
    ({ c.setRequest kvRequestId { st with peerLookupOpen := false, probes := .empty, unsent := [] }
        with flushPending := flushPending }.maybePrune kvRequestId).Tracks ∧
      ∀ roundSeq, ¬OpenLookup kvRequestId roundSeq
        ({ c.setRequest kvRequestId { st with
            peerLookupOpen := false, probes := .empty, unsent := [] }
          with flushPending := flushPending }.maybePrune kvRequestId).outbox := by
  rw [maybePrune_outbox]
  refine ⟨tracks_maybePrune (fun id roundSeq isOpen => ?_) ?_, closed⟩
  · by_cases e : id = kvRequestId
    · exact absurd (e ▸ isOpen) (closed roundSeq)
    · have ⟨probes, unsent, held⟩ := h id roundSeq isOpen
      exact ⟨probes, unsent, (lookupState_setRequest_ne e).trans held⟩
  · intro probes unsent roundSeq isOpen found _ _
    change (c.setRequest kvRequestId _).lookupState kvRequestId = _ at found
    rw [lookupState_setRequest, if_pos rfl] at found
    simp only [Option.some.injEq, Prod.mk.injEq] at found
    exact found.2.2.2.symm

theorem tracks_finish (clock : Nat → Time) (h : c.Tracks) : (c.finish kvRequestId clock).Tracks ∧
    ∀ roundSeq, ¬OpenLookup kvRequestId roundSeq (c.finish kvRequestId clock).outbox := by
  unfold finish
  split
  next missing =>
    refine ⟨h, fun roundSeq isOpen => ?_⟩
    obtain ⟨probes, unsent, held⟩ := h kvRequestId roundSeq isOpen
    simp [lookupState, missing] at held
  next st found =>
    have same := abortLoads_sameLookups clock st.loads.items found
    have aborted := same.tracks h
    dsimp only
    split
    · -- the terminal fetch closes the lookups of every round
      set ended := (c.abortLoads kvRequestId clock st.loads.items).send
        (.fetch kvRequestId [] [] st.roundSeq)
      have fetched : ended.Tracks ∧ ∀ roundSeq, ¬OpenLookup kvRequestId roundSeq ended.outbox :=
        tracks_of_fetch (.inl rfl) aborted rfl fun _ _ => rfl
      exact tracks_emptied _ fetched.1 fetched.2
    next flag =>
      refine tracks_emptied _ aborted fun roundSeq isOpen => ?_
      obtain ⟨probes, unsent, held⟩ := aborted kvRequestId roundSeq isOpen
      rw [same.state, lookupState_of_get found] at held
      simp only [Option.some.injEq, Prod.mk.injEq] at held
      exact flag held.2.2.2

end ClientRole

/-- A call of a client role, or a message that arrives at it. -/
inductive ClientCall
  | registerLookup (kvRequestId : String) (key : OffloadKey)
  | flushPendingLookups
  | requestBlocks (jobId : JobId) (kvRequestId : String) (keys : List OffloadKey)
      (blockIds : List Nat) (t : Time)
  | finish (kvRequestId : String) (clock : Nat → Time)
  | transferDone (kvRequestId : String) (success : Bool) (roundSeq : Nat)
  | abortAck (kvRequestId : String) (roundSeq : Nat)
  | lookupResp (kvRequestId : String) (keys : List OffloadKey) (hits : List Bool)

namespace ClientCall

/-- The role behind a call, also behind one that raises. -/
def run (c : ClientRole) : ClientCall → ClientRole
  | registerLookup kvRequestId key => (c.registerLookup kvRequestId key).2
  | flushPendingLookups => c.flushPendingLookups
  | requestBlocks jobId kvRequestId keys blockIds t =>
    ((ClientRole.requestBlocks jobId kvRequestId keys blockIds t).run c).2
  | finish kvRequestId clock => c.finish kvRequestId clock
  | transferDone kvRequestId success roundSeq => c.onTransferDone kvRequestId success roundSeq
  | abortAck kvRequestId roundSeq => c.onAbortAck kvRequestId roundSeq
  | lookupResp kvRequestId keys hits => c.onLookupResp kvRequestId keys hits

/-- A message that ends the last load of an entry does not prune it from under the lookups
that the peer has. -/
def EndsTracked (c : ClientRole) : ClientCall → Prop
  | transferDone kvRequestId _ roundSeq => c.EndsTracked kvRequestId roundSeq
  | abortAck kvRequestId roundSeq => c.EndsTracked kvRequestId roundSeq
  | _ => True

theorem tracks_run {c : ClientRole} (call : ClientCall) (h : c.Tracks)
    (tracked : call.EndsTracked c) : (call.run c).Tracks := by
  cases call with
  | registerLookup kvRequestId key => exact c.tracks_registerLookup key h
  | flushPendingLookups => exact c.tracks_flushPendingLookups h
  | requestBlocks jobId kvRequestId keys blockIds t =>
    exact c.tracks_requestBlocks jobId keys blockIds t h
  | finish kvRequestId clock => exact (c.tracks_finish clock h).1
  | transferDone kvRequestId success roundSeq => exact c.tracks_completeLoad roundSeq success h tracked
  | abortAck kvRequestId roundSeq => exact c.tracks_completeLoad roundSeq false h tracked
  | lookupResp kvRequestId keys hits => exact c.tracks_onLookupResp keys hits h

end ClientCall

def clientRuns : TransitionSystem ClientRole ClientCall where
  init c := c = {}
  step c call c' := c' = call.run c

def trackedRuns : TransitionSystem ClientRole ClientCall where
  init c := c = {}
  step c call c' := call.EndsTracked c ∧ c' = call.run c

namespace ClientRole

variable {c : ClientRole}

theorem reachable_tracks (reached : trackedRuns.Reachable c) : c.Tracks := by
  refine reached.invariant (P := Tracks) ?_ ?_
  · rintro c rfl id roundSeq ⟨before, msg, after, sent, -⟩
    exact absurd sent (by simp)
  · rintro c call c' - h ⟨tracked, rfl⟩
    exact call.tracks_run h tracked

/-- Behind a finish every lookup that was sent for the request is closed. -/
theorem finish_closes (reached : trackedRuns.Reachable c) (kvRequestId : String)
    (clock : Nat → Time) : LookupsClosed kvRequestId (c.finish kvRequestId clock).outbox :=
  lookupsClosed_of_not_open (c.tracks_finish clock (reachable_tracks reached)).2

/-- A key is probed, sent and answered, and the request is given up. -/
theorem probe_closes : LookupsClosed "r"
    (ClientRole.finish "r" (fun _ => 0) (ClientCall.run (ClientCall.run {}
    (.registerLookup "r" [1])) .flushPendingLookups)).outbox := by
  have probed : trackedRuns.Reachable _ :=
    .step (a := .registerLookup "r" [1]) (.init rfl) ⟨trivial, rfl⟩
  have asked : trackedRuns.Reachable _ := .step (a := .flushPendingLookups) probed ⟨trivial, rfl⟩
  exact finish_closes asked "r" fun _ => 0

/-- A key that is first probed in the step of a fetch is sent behind it; when the load is
done the entry is pruned, and the finish sends no fetch for it. -/
theorem late_lookup_stays_open : ¬∀ c : ClientRole, clientRuns.Reachable c →
    ∀ kvRequestId clock, LookupsClosed kvRequestId (c.finish kvRequestId clock).outbox := by
  intro all
  have probed : clientRuns.Reachable _ := .step (a := .registerLookup "r" [1]) (.init rfl) rfl
  have asked : clientRuns.Reachable _ := .step (a := .flushPendingLookups) probed rfl
  have answered : clientRuns.Reachable _ :=
    .step (a := .lookupResp "r" [[1]] [true]) asked rfl
  have late : clientRuns.Reachable _ := .step (a := .registerLookup "r" [2]) answered rfl
  have fetched : clientRuns.Reachable _ :=
    .step (a := .requestBlocks 1 "r" [[1]] [5] 0) late rfl
  have flushed : clientRuns.Reachable _ := .step (a := .flushPendingLookups) fetched rfl
  have loaded : clientRuns.Reachable _ := .step (a := .transferDone "r" true 0) flushed rfl
  have closed := all _ loaded "r" (fun _ => 0)
    [.lookup "r" [[1]] 0, .fetch "r" [[1]] [5] 0] [[2]] 1 [] (by rfl)
  simp at closed

end ClientRole

end VllmAmpere.P2P
