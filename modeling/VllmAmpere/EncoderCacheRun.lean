import Mathlib.Algebra.Order.BigOperators.Group.List
import VllmAmpere.EncoderCacheAccounts

/-! The calls of the encoder cache in the order the scheduler makes them, and what holds
after each of them. -/

open List Function

namespace VllmAmpere.Sched

/-- A pass over the inputs of a request: those that `can_allocate` has admitted and that
are not allocated yet, and the embeddings of all that were admitted. -/
structure EncoderPass where
  requestId : String
  admitted : List Nat := []
  numEmbedsToSchedule : Nat := 0

/-- The encoder cache, the request objects it is called with and the pass under way. -/
structure EncoderRun where
  request : String → Request
  pass : EncoderPass
  manager : EncoderCacheManager

inductive EncoderCall
  | addRequest (r : Request)
  | extendFeatures (requestId : String) (features : List MultiModalFeature)
  | beginPass (requestId : String)
  | checkAndUpdateCache (inputId : Nat)
  /-- `take` says whether the scheduler plans an input that is admitted. -/
  | canAllocate (inputId : Nat) (encoderComputeBudget : Int) (take : Bool)
  | allocate (inputId : Nat)
  | freeEncoderInput (requestId : String) (inputId : Nat)
  /-- `order` is the order in which Python iterates over the set of cached inputs. -/
  | free (requestId : String) (order : List Nat)
  | getFreedMmHashes
  | reset

namespace EncoderRun

variable (s : EncoderRun)

def current : Request := s.request s.pass.requestId

def plan (inputId : Nat) : EncoderRun :=
  { s with pass := { s.pass with
      admitted := s.pass.admitted ++ [inputId]
      numEmbedsToSchedule := s.pass.numEmbedsToSchedule + s.current.embedsAt inputId } }

def setManager (manager : EncoderCacheManager) : EncoderRun :=
  { s with manager := manager }

def call : EncoderCall → Except PyError EncoderRun
  | .addRequest r => .ok { s with request := update s.request r.requestId r }
  | .extendFeatures id features =>
    let r := s.request id
    let r := { r with mmFeatures := r.mmFeatures ++ features }
    .ok { s with request := update s.request id r }
  | .beginPass id => .ok { s with pass := { requestId := id } }
  | .checkAndUpdateCache i => do
    let answer ← s.manager.checkAndUpdateCache s.current i
    .ok (s.setManager answer.2)
  | .canAllocate i encoderComputeBudget take => do
    let answer ← s.manager.canAllocate s.current i encoderComputeBudget s.pass.numEmbedsToSchedule
    let s := s.setManager answer.2
    .ok (if answer.1 && take then s.plan i else s)
  | .allocate i => do
    let manager ← s.manager.allocate s.current i
    .ok { s with
      manager := manager
      pass := { s.pass with admitted := s.pass.admitted.erase i } }
  | .freeEncoderInput id i => do
    let manager ← s.manager.freeEncoderInput (s.request id) i
    .ok (s.setManager manager)
  | .free id order => do
    let manager ← EncoderCacheManager.free (s.request id) order s.manager
    .ok (s.setManager manager)
  | .getFreedMmHashes => .ok (s.setManager s.manager.getFreedMmHashes.2)
  | .reset => .ok (s.setManager s.manager.reset)

/-- What the scheduler sees to before it makes a call. A request is added under an id
that was freed; only inputs that are not cached and not yet planned in the pass are
asked for, and only admitted ones are allocated; only registered inputs are freed. -/
def Allowed : EncoderCall → Prop
  | .addRequest r => s.pass.admitted = [] ∧ ∀ i, ¬s.manager.Registered r.requestId i
  | .extendFeatures _ _ => s.pass.admitted = []
  | .checkAndUpdateCache i => i < s.current.mmFeatures.length
  | .canAllocate i _ _ => ∃ mmHash, s.current.identifierAt i = some mmHash ∧
      s.manager.cached.get? mmHash = none ∧
      some mmHash ∉ s.pass.admitted.map s.current.identifierAt
  | .allocate i => i ∈ s.pass.admitted
  | .freeEncoderInput id i => s.manager.Registered id i
  | .free id order => order.Nodup ∧ ∀ i, i ∈ order ↔ s.manager.Registered id i
  | .beginPass _ | .getFreedMmHashes | .reset => True

def Frees (requestId : String) (i : Nat) : EncoderCall → Prop
  | .freeEncoderInput id j => id = requestId ∧ j = i
  | .free id order => id = requestId ∧ i ∈ order
  | _ => False

def init (cacheSize : Nat) : EncoderRun where
  request id := { requestId := id }
  pass := { requestId := "" }
  manager := .init cacheSize

end EncoderRun

def encoderCacheRuns (cacheSize : Nat) : TransitionSystem EncoderRun EncoderCall where
  init s := s = EncoderRun.init cacheSize
  step s c s' := s.Allowed c ∧ s.call c = .ok s'

namespace EncoderRun

variable {s s' : EncoderRun} {cacheSize : Nat}

structure Sound (cacheSize : Nat) (s : EncoderRun) : Prop where
  named : ∀ id, (s.request id).requestId = id
  size : s.manager.cacheSize = cacheSize
  accounts : s.manager.Accounts
  references : s.manager.References s.request
  /-- What is planned is still not cached, and there is room for all of it. -/
  absent : ∀ i ∈ s.pass.admitted, ∃ mmHash, s.current.identifierAt i = some mmHash ∧
    s.manager.cached.get? mmHash = none
  distinct : (s.pass.admitted.map s.current.identifierAt).Nodup
  room : ((s.pass.admitted.map s.current.embedsAt).sum : Int) ≤ s.manager.numFreeSlots
  asked : (s.pass.admitted.map s.current.embedsAt).sum ≤ s.pass.numEmbedsToSchedule

theorem sound_init (cacheSize : Nat) : (init cacheSize).Sound cacheSize where
  named _ := rfl
  size := rfl
  accounts := EncoderCacheManager.accounts_init cacheSize
  references := EncoderCacheManager.references_init _ cacheSize
  absent := nofun
  distinct := nodup_nil
  room := Int.natCast_nonneg cacheSize
  asked := Nat.le_refl 0

section

variable (sound : s.Sound cacheSize)
include sound

theorem Sound.keeps {manager : EncoderCacheManager}
    (keeps : EncoderCacheManager.Keeps s.request s.manager manager) :
    (s.setManager manager).Sound cacheSize where
  named := sound.named
  size := keeps.roomier.cacheSize.trans sound.size
  accounts := keeps.accounts
  references := keeps.references
  absent i hi := by
    have ⟨mmHash, identified, absent⟩ := sound.absent i hi
    exact ⟨mmHash, identified, keeps.roomier.cached mmHash absent⟩
  distinct := sound.distinct
  room := sound.room.trans keeps.roomier.numFreeSlots
  asked := sound.asked

theorem Sound.plan {i : Nat} {mmHash : String}
    (identified : s.current.identifierAt i = some mmHash)
    (absent : s.manager.cached.get? mmHash = none)
    (fresh : some mmHash ∉ s.pass.admitted.map s.current.identifierAt)
    (room : (s.current.embedsAt i + s.pass.numEmbedsToSchedule : Int) ≤ s.manager.numFreeSlots) :
    (s.plan i).Sound cacheSize where
  named := sound.named
  size := sound.size
  accounts := sound.accounts
  references := sound.references
  absent j hj := by
    rcases mem_append.mp hj with hj | hj
    · exact sound.absent j hj
    · rw [mem_singleton.mp hj]
      exact ⟨mmHash, identified, absent⟩
  distinct := by
    change ((s.pass.admitted ++ [i]).map s.current.identifierAt).Nodup
    rw [map_append, map_singleton, identified, nodup_append]
    refine ⟨sound.distinct, by simp, fun a ha b hb => ?_⟩
    rw [mem_singleton.mp hb]
    rintro rfl
    exact fresh ha
  room := by
    change ((((s.pass.admitted ++ [i]).map s.current.embedsAt).sum : Nat) : Int) ≤
      s.manager.numFreeSlots
    have := sound.asked
    simp only [map_append, map_singleton, sum_append, sum_singleton]
    omega
  asked := by
    change ((s.pass.admitted ++ [i]).map s.current.embedsAt).sum ≤
      s.pass.numEmbedsToSchedule + s.current.embedsAt i
    have := sound.asked
    simp only [map_append, map_singleton, sum_append, sum_singleton]
    omega

theorem Sound.allocated {i : Nat} (planned : i ∈ s.pass.admitted)
    {mmHash : String} (identified : s.current.identifierAt i = some mmHash)
    {manager : EncoderCacheManager} (accounts : manager.Accounts)
    (references : manager.References s.request) (size : manager.cacheSize = s.manager.cacheSize)
    (free : manager.numFreeSlots = s.manager.numFreeSlots - s.current.embedsAt i)
    (others : ∀ other, other ≠ mmHash →
      manager.cached.get? other = s.manager.cached.get? other) :
    { s with
      manager := manager
      pass := { s.pass with admitted := s.pass.admitted.erase i } }.Sound cacheSize := by
  have sum : s.current.embedsAt i + ((s.pass.admitted.erase i).map s.current.embedsAt).sum =
      (s.pass.admitted.map s.current.embedsAt).sum := sum_map_erase _ planned
  have nodup : s.pass.admitted.Nodup := sound.distinct.of_map
  refine ⟨sound.named, size.trans sound.size, accounts, references, fun j hj => ?_,
    sound.distinct.sublist (erase_sublist.map _), ?_, ?_⟩
  · have ⟨other, hother, absent⟩ := sound.absent j (mem_of_mem_erase hj)
    refine ⟨other, hother, (others other ?_).trans absent⟩
    rintro rfl
    have same : j = i := inj_on_of_nodup_map sound.distinct (mem_of_mem_erase hj) planned
      (hother.trans identified.symm)
    exact (List.Nodup.mem_erase_iff nodup).mp hj |>.1 same
  · change (((s.pass.admitted.erase i).map s.current.embedsAt).sum : Int) ≤ manager.numFreeSlots
    have := sound.room
    omega
  · change ((s.pass.admitted.erase i).map s.current.embedsAt).sum ≤ s.pass.numEmbedsToSchedule
    have := sound.asked
    omega

theorem Sound.setRequest (idle : s.pass.admitted = []) {id : String}
    {r : Request} (named : r.requestId = id) (same : ∀ i, s.manager.Registered id i →
    r.identifierAt i = (s.request id).identifierAt i) :
    { s with request := update s.request id r }.Sound cacheSize := by
  have identifiers : ∀ id' i, s.manager.Registered id' i →
      (update s.request id r id').identifierAt i = (s.request id').identifierAt i := by
    intro id' i hi
    by_cases h : id' = id
    · subst h
      rw [update_self]
      exact same i hi
    · rw [update_of_ne h]
  refine ⟨fun id' => ?_, sound.size, sound.accounts, ⟨fun id' i hi => ?_, fun id' mmHash => ?_⟩,
    ?_, ?_, ?_, ?_⟩
  · by_cases h : id' = id
    · subst h
      exact (congrArg Request.requestId (update_self ..)).trans named
    · exact (congrArg Request.requestId (update_of_ne h ..)).trans (sound.named id')
  · have ⟨mmHash, hm⟩ := sound.references.known id' i hi
    exact ⟨mmHash, (identifiers id' i hi).trans hm⟩
  · rw [sound.references.holds_iff]
    refine exists_congr fun i => and_congr_right fun hi => ?_
    rw [identifiers id' i hi]
  · simp [idle]
  · simp [idle]
  · have := sound.room
    simpa [idle] using this
  · simp [idle]

/-- Every call that the scheduler makes returns, keeps the accounts and drops a reference
only with the last registered input under the identifier. -/
theorem Sound.call {c : EncoderCall} (allowed : s.Allowed c) :
    ∃ s', s.call c = .ok s' ∧ s'.Sound cacheSize ∧ ∀ id mmHash, s.manager.Holds id mmHash →
    ¬s'.manager.Holds id mmHash →
    c = .reset ∨ ∃ i, Frees id i c ∧ (s.request id).identifierAt i = some mmHash := by
  cases c with
  | addRequest r =>
    exact ⟨_, rfl, sound.setRequest allowed.1 rfl fun i hi => absurd hi (allowed.2 i),
      fun _ _ h h' => absurd h h'⟩
  | extendFeatures id features =>
    refine ⟨_, rfl, sound.setRequest allowed (sound.named id) fun i hi => ?_,
      fun _ _ h h' => absurd h h'⟩
    have ⟨mmHash, hm⟩ := sound.references.known id i hi
    obtain ⟨f, hf, -⟩ := Request.identifierAt_eq.mp hm
    unfold Request.identifierAt
    rw [getElem?_append_left (List.getElem?_eq_some_iff.mp hf).1]
  | beginPass id =>
    have free := sound.accounts.numFreeSlots
    refine ⟨_, rfl, { sound with
      absent := nofun
      distinct := nodup_nil
      room := ?_
      asked := Nat.le_refl 0 }, fun _ _ h h' => absurd h h'⟩
    exact (Int.natCast_nonneg _).trans sound.room
  | checkAndUpdateCache i =>
    have ⟨mmHash, identified⟩ : ∃ mmHash, s.current.identifierAt i = some mmHash :=
      ⟨_, Request.identifierAt_eq.mpr ⟨_, getElem?_eq_getElem allowed, rfl⟩⟩
    obtain ⟨hit, m', hcall, keeps, holds, -⟩ := EncoderCacheManager.checkAndUpdateCache_spec
      sound.accounts sound.references (sound.named s.pass.requestId) identified
    exact ⟨s.setManager m', bind_eq_ok.mpr ⟨_, hcall, rfl⟩, sound.keeps keeps,
      fun id other h h' => absurd (holds id other h) h'⟩
  | canAllocate i budget take =>
    obtain ⟨mmHash, identified, absent, fresh⟩ := allowed
    obtain ⟨f, hf, -⟩ := Request.identifierAt_eq.mp identified
    have ⟨fits, m', hcall, keeps, holds, room⟩ := EncoderCacheManager.canAllocate_spec
      sound.accounts sound.references hf budget s.pass.numEmbedsToSchedule
    refine ⟨_, bind_eq_ok.mpr ⟨_, hcall, rfl⟩, ?_, fun id other h h' => ?_⟩
    · split
      · rename_i taken
        have fitted : fits = true := (Bool.and_eq_true .. ▸ taken).1
        exact (sound.keeps keeps).plan identified (keeps.roomier.cached mmHash absent) fresh
          (room fitted).1
      · exact sound.keeps keeps
    · refine absurd (holds id other h) ?_
      split at h' <;> exact h'
  | allocate i =>
    have ⟨mmHash, identified, absent⟩ := sound.absent i allowed
    have sum : s.current.embedsAt i + ((s.pass.admitted.erase i).map s.current.embedsAt).sum =
        (s.pass.admitted.map s.current.embedsAt).sum := sum_map_erase _ allowed
    have room := sound.room
    have ⟨m', hcall, accounts, references, holds, size, free, others⟩ :=
      EncoderCacheManager.allocate_spec sound.accounts sound.references
        (sound.named s.pass.requestId) identified absent (by
          change (s.current.embedsAt i : Int) ≤ _
          omega)
    exact ⟨_, bind_eq_ok.mpr ⟨m', hcall, rfl⟩,
      sound.allocated allowed identified accounts references size free others,
      fun id other h h' => absurd (holds id other h) h'⟩
  | freeEncoderInput id i =>
    obtain ⟨m', hcall, keeps, -, dropped⟩ := EncoderCacheManager.freeEncoderInput_spec
      sound.accounts sound.references (sound.named id) allowed
    refine ⟨s.setManager m', bind_eq_ok.mpr ⟨m', hcall, rfl⟩, sound.keeps keeps,
      fun id' mmHash h h' => .inr ?_⟩
    obtain ⟨rfl, identified⟩ := dropped id' mmHash h h'
    exact ⟨i, ⟨rfl, rfl⟩, identified⟩
  | free id order =>
    obtain ⟨m', hcall, keeps, -, dropped⟩ := EncoderCacheManager.free_spec sound.accounts
      sound.references (sound.named id) order allowed.1 fun i hi => (allowed.2 i).mp hi
    refine ⟨s.setManager m', bind_eq_ok.mpr ⟨m', hcall, rfl⟩, sound.keeps keeps,
      fun id' mmHash h h' => .inr ?_⟩
    obtain ⟨rfl, i, hi, identified⟩ := dropped id' mmHash h h'
    exact ⟨i, ⟨rfl, hi⟩, identified⟩
  | getFreedMmHashes =>
    have accounts : s.manager.getFreedMmHashes.2.Accounts :=
      sound.accounts.congr rfl rfl rfl rfl rfl rfl
    exact ⟨_, rfl, sound.keeps ⟨accounts, ⟨sound.references.known, sound.references.holds_iff⟩,
      ⟨rfl, Int.le_refl _, fun _ h => h⟩⟩, fun _ _ h h' => absurd h h'⟩
  | reset =>
    have free := sound.accounts.numFreeSlots
    refine ⟨_, rfl, sound.keeps ⟨EncoderCacheManager.accounts_init _,
      EncoderCacheManager.references_init _ _, ⟨rfl, ?_, fun _ _ => rfl⟩⟩, fun _ _ _ _ => .inl rfl⟩
    change s.manager.numFreeSlots ≤ (s.manager.cacheSize : Int)
    omega

end

theorem reachable_sound (reached : (encoderCacheRuns cacheSize).Reachable s) :
    s.Sound cacheSize := by
  refine reached.invariant ?_ ?_
  · rintro _ rfl
    exact sound_init cacheSize
  · rintro s c s' - sound ⟨allowed, hcall⟩
    obtain ⟨s₁, hcall₁, sound₁, -⟩ := sound.call allowed
    cases hcall.symm.trans hcall₁
    exact sound₁

/-- In every state of a run the counters are what the entries make them, `freeable` holds
the entries without a reference, no call raises, what was freed is not cached, and a
reference is dropped only when the last registered input with the identifier is freed. -/
theorem reachable_accounts (reached : (encoderCacheRuns cacheSize).Reachable s) :
    s.manager.numFreeSlots = cacheSize - s.manager.numEmbedsByHash.total id ∧
    (∀ mmHash, s.manager.cached.get? mmHash = none ↔ s.manager.numEmbedsByHash.get? mmHash = none) ∧
    s.manager.numFreeableSlots = s.manager.numFreeSlots + s.manager.unreferencedEmbeds ∧
    (∀ mmHash n, s.manager.freeable.get? mmHash = some n ↔ s.manager.cached.get? mmHash = some [] ∧
    s.manager.numEmbedsByHash.get? mmHash = some n) ∧ (∀ c, s.Allowed c → ∃ s', s.call c = .ok s') ∧
    (∀ mmHash ∈ s.manager.getFreedMmHashes.1, s.manager.cached.get? mmHash = none) ∧
    ∀ c s', s.Allowed c → s.call c = .ok s' → ∀ id mmHash, s.manager.Holds id mmHash →
    ¬s'.manager.Holds id mmHash →
    (c = .reset ∨ ∃ i, Frees id i c ∧ (s.request id).identifierAt i = some mmHash) ∧
    ∀ j, s'.manager.Registered id j → (s'.request id).identifierAt j ≠ some mmHash := by
  have sound := reachable_sound reached
  refine ⟨sound.size ▸ sound.accounts.numFreeSlots, sound.accounts.cached_iff,
    sound.accounts.unreferenced ▸ sound.accounts.numFreeableSlots, sound.accounts.freeable_iff,
    fun c allowed => ?_, fun mmHash h => ?_, fun c s' allowed hcall id mmHash h h' => ?_⟩
  · obtain ⟨s', hcall, -⟩ := sound.call allowed
    exact ⟨s', hcall⟩
  · exact Option.isNone_iff_eq_none.mp (mem_filter.mp h).2
  · have ⟨s₁, hcall₁, sound₁, dropped⟩ := sound.call allowed
    cases hcall.symm.trans hcall₁
    refine ⟨dropped id mmHash h h', fun j hj identified => h' ?_⟩
    exact (sound₁.references.holds_iff id mmHash).mpr ⟨j, hj, identified⟩

def repeatedImage : Request :=
  { requestId := "a"
    mmFeatures := [{ identifier := "image", mmPosition := ⟨0, 2, Nat.two_pos⟩ },
      { identifier := "image", mmPosition := ⟨5, 2, Nat.two_pos⟩ }] }

theorem repeatedImage_accounts : ∃ s, (encoderCacheRuns 4).Reachable s ∧
    s.manager.numFreeSlots = 2 ∧ s.manager.cached.get? "image" = some ["a"] ∧
    s.manager.numFreeSlots = (4 : Nat) - s.manager.numEmbedsByHash.total id ∧
    s.manager.numFreeableSlots = s.manager.numFreeSlots + s.manager.unreferencedEmbeds := by
  have added : (encoderCacheRuns 4).Reachable _ :=
    .step (a := .addRequest repeatedImage) (.init rfl) ⟨⟨rfl, fun _ h => nomatch h⟩, rfl⟩
  have begun : (encoderCacheRuns 4).Reachable _ :=
    .step (a := .beginPass "a") added ⟨trivial, rfl⟩
  have admitted : (encoderCacheRuns 4).Reachable _ :=
    .step (a := .canAllocate 0 8 true) begun ⟨⟨"image", by decide, by decide, by decide⟩, rfl⟩
  have allocated : (encoderCacheRuns 4).Reachable _ :=
    .step (a := .allocate 0) admitted ⟨mem_singleton_self 0, rfl⟩
  have shared : (encoderCacheRuns 4).Reachable _ :=
    .step (a := .checkAndUpdateCache 1) allocated ⟨(by decide : 1 < 2), rfl⟩
  have freed : (encoderCacheRuns 4).Reachable _ :=
    .step (a := .freeEncoderInput "a" 0) shared ⟨mem_cons_self, rfl⟩
  have accounts := reachable_accounts freed
  exact ⟨_, freed, by decide, by decide, accounts.1, accounts.2.2.1⟩

end EncoderRun

end VllmAmpere.Sched
