import VllmAmpere.Heapq
import VllmAmpere.Python

/-! The waiting queues of the scheduler. A queue holds references to requests; the
order of a priority queue is read from the requests through a key, as the requests
may change while they are queued. -/

open List

namespace VllmAmpere

inductive SchedulingPolicy
  | fcfs
  | priority
  deriving DecidableEq, Repr

universe u v

variable {ρ : Type u}

namespace FCFSRequestQueue

def addRequest (q : List ρ) (request : ρ) : List ρ := q ++ [request]

def popRequest : List ρ → Except PyError (ρ × List ρ)
  | [] => .error .index
  | request :: q => .ok (request, q)

def peekRequest : List ρ → Except PyError ρ
  | [] => .error .index
  | request :: _ => .ok request

def prependRequest (q : List ρ) (request : ρ) : List ρ := request :: q

/-- `extendleft`: the last of `requests` ends up first. -/
def prependRequests (q requests : List ρ) : List ρ := requests.foldl prependRequest q

def removeRequest [DecidableEq ρ] (q : List ρ) (request : ρ) : Except PyError (List ρ) :=
  if request ∈ q then .ok (q.erase request) else .error (.value "deque.remove(x): x not in deque")

def removeRequests [DecidableEq ρ] (q requests : List ρ) : List ρ :=
  q.filter fun r => r ∉ requests

theorem prependRequests_eq (q requests : List ρ) :
    prependRequests q requests = requests.reverse ++ q := by
  induction requests generalizing q with
  | nil => rfl
  | cons r requests ih =>
    rw [prependRequests, foldl_cons, ← prependRequests, ih, prependRequest,
      reverse_cons, append_assoc, singleton_append]

end FCFSRequestQueue

namespace PriorityRequestQueue

variable {κ : Type v} [LinearOrder κ] (key : ρ → κ)

def addRequest (heap : List ρ) (request : ρ) : List ρ := Heapq.heappush key heap request

def popRequest (heap : List ρ) : Except PyError (ρ × List ρ) :=
  match Heapq.heappop key heap with
  | some popped => .ok popped
  | none => .error .index

def peekRequest : List ρ → Except PyError ρ
  | [] => .error .index
  | request :: _ => .ok request

def prependRequest (heap : List ρ) (request : ρ) : List ρ := addRequest key heap request

def prependRequests (heap requests : List ρ) : List ρ := requests.foldl (addRequest key) heap

def removeRequest [DecidableEq ρ] (heap : List ρ) (request : ρ) : Except PyError (List ρ) :=
  if request ∈ heap then .ok (Heapq.heapify key (heap.erase request))
  else .error (.value "list.remove(x): x not in list")

def removeRequests [DecidableEq ρ] (heap requests : List ρ) : List ρ :=
  Heapq.heapify key (heap.filter fun r => r ∉ requests)

/-- `__iter__`: a copy of the heap, popped until it is empty. -/
def iter (heap : List ρ) : List ρ := Heapq.drain key heap.length heap

end PriorityRequestQueue

/-- A queue of the class that `create_request_queue` picks for the policy. -/
structure RequestQueue (ρ : Type u) where
  policy : SchedulingPolicy
  /-- The items of the deque, or the heap list. -/
  items : List ρ
  deriving DecidableEq, Repr

namespace RequestQueue

variable {κ : Type v} [LinearOrder κ] (key : ρ → κ) (q : RequestQueue ρ)

def addRequest (request : ρ) : RequestQueue ρ :=
  match q.policy with
  | .fcfs => { q with items := FCFSRequestQueue.addRequest q.items request }
  | .priority => { q with items := PriorityRequestQueue.addRequest key q.items request }

def popRequest : Except PyError (ρ × RequestQueue ρ) := do
  let (request, items) ← match q.policy with
    | .fcfs => FCFSRequestQueue.popRequest q.items
    | .priority => PriorityRequestQueue.popRequest key q.items
  .ok (request, { q with items := items })

def peekRequest : Except PyError ρ :=
  match q.policy with
  | .fcfs => FCFSRequestQueue.peekRequest q.items
  | .priority => PriorityRequestQueue.peekRequest q.items

def prependRequest (request : ρ) : RequestQueue ρ :=
  match q.policy with
  | .fcfs => { q with items := FCFSRequestQueue.prependRequest q.items request }
  | .priority => { q with items := PriorityRequestQueue.prependRequest key q.items request }

def prependRequests (requests : List ρ) : RequestQueue ρ :=
  match q.policy with
  | .fcfs => { q with items := FCFSRequestQueue.prependRequests q.items requests }
  | .priority => { q with items := PriorityRequestQueue.prependRequests key q.items requests }

def removeRequest [DecidableEq ρ] (request : ρ) : Except PyError (RequestQueue ρ) := do
  let items ← match q.policy with
    | .fcfs => FCFSRequestQueue.removeRequest q.items request
    | .priority => PriorityRequestQueue.removeRequest key q.items request
  .ok { q with items := items }

def removeRequests [DecidableEq ρ] (requests : List ρ) : RequestQueue ρ :=
  match q.policy with
  | .fcfs => { q with items := FCFSRequestQueue.removeRequests q.items requests }
  | .priority => { q with items := PriorityRequestQueue.removeRequests key q.items requests }

def iter : List ρ :=
  match q.policy with
  | .fcfs => q.items
  | .priority => PriorityRequestQueue.iter key q.items

variable {key q}

@[simp] theorem addRequest_policy (request : ρ) : (q.addRequest key request).policy = q.policy := by
  unfold addRequest
  split <;> rfl

@[simp] theorem prependRequest_policy (request : ρ) :
    (q.prependRequest key request).policy = q.policy := by
  unfold prependRequest
  split <;> rfl

@[simp] theorem prependRequests_policy (requests : List ρ) :
    (q.prependRequests key requests).policy = q.policy := by
  unfold prependRequests
  split <;> rfl

@[simp] theorem removeRequests_policy [DecidableEq ρ] (requests : List ρ) :
    (q.removeRequests key requests).policy = q.policy := by
  unfold removeRequests
  split <;> rfl

theorem addRequest_perm (request : ρ) :
    (q.addRequest key request).items.Perm (request :: q.items) := by
  unfold addRequest
  split
  · exact perm_append_singleton request q.items
  · exact Heapq.heappush_perm q.items request

theorem prependRequest_perm (request : ρ) :
    (q.prependRequest key request).items.Perm (request :: q.items) := by
  unfold prependRequest
  split
  · exact .refl _
  · exact Heapq.heappush_perm q.items request

variable (key q) in
theorem prependRequests_perm (requests : List ρ) :
    (q.prependRequests key requests).items.Perm (requests ++ q.items) := by
  unfold prependRequests
  split
  · dsimp only
    rw [FCFSRequestQueue.prependRequests_eq]
    exact (reverse_perm requests).append_right q.items
  · dsimp only
    unfold PriorityRequestQueue.prependRequests
    generalize q.items = heap
    induction requests generalizing heap with
    | nil => exact .refl _
    | cons r rest ih =>
      refine (ih _).trans ?_
      refine ((Heapq.heappush_perm heap r).append_left rest).trans ?_
      exact perm_middle

theorem prependRequest_fcfs (h : q.policy = .fcfs) (request : ρ) :
    q.prependRequest key request = { q with items := request :: q.items } := by
  unfold prependRequest
  rw [h]
  rfl

theorem prependRequests_fcfs (h : q.policy = .fcfs) (requests : List ρ) :
    q.prependRequests key requests = { q with items := requests.reverse ++ q.items } := by
  unfold prependRequests
  rw [h, ← FCFSRequestQueue.prependRequests_eq]

theorem removeRequests_perm [DecidableEq ρ] (requests : List ρ) :
    (q.removeRequests key requests).items.Perm (q.items.filter fun r => r ∉ requests) := by
  unfold removeRequests
  split
  · exact .refl _
  · exact Heapq.heapify_perm _

variable {request : ρ}

theorem peekRequest_ok : q.peekRequest = .ok request ↔ q.items.head? = some request := by
  unfold peekRequest FCFSRequestQueue.peekRequest PriorityRequestQueue.peekRequest
  cases q.policy <;> cases q.items <;> simp

variable {q' : RequestQueue ρ}

theorem popRequest_ok (h : q.popRequest key = .ok (request, q')) :
    q'.policy = q.policy ∧ q.items.head? = some request ∧ (request :: q'.items).Perm q.items := by
  unfold popRequest at h
  split at h
  · have ⟨⟨popped, items⟩, hpop, h⟩ := bind_eq_ok.mp h
    cases h
    refine ⟨rfl, ?_⟩
    cases hitems : q.items with
    | nil =>
      rw [hitems] at hpop
      cases hpop
    | cons first rest =>
      rw [hitems] at hpop
      cases hpop
      exact ⟨rfl, .refl _⟩
  · have ⟨⟨popped, items⟩, hpop, h⟩ := bind_eq_ok.mp h
    cases h
    refine ⟨rfl, ?_⟩
    unfold PriorityRequestQueue.popRequest at hpop
    split at hpop
    · rename_i heq
      cases hpop
      exact Heapq.heappop_perm heq
    · cases hpop

theorem popRequest_fcfs (hq : q.policy = .fcfs)
    (h : q.popRequest key = .ok (request, q')) : q.items = request :: q'.items := by
  unfold popRequest at h
  rw [hq] at h
  have ⟨⟨popped, items⟩, hpop, h⟩ := bind_eq_ok.mp h
  cases h
  cases hitems : q.items with
  | nil =>
    rw [hitems] at hpop
    cases hpop
  | cons first rest =>
    rw [hitems] at hpop
    cases hpop
    rfl

/-- The calls that change a queue. -/
inductive QueueCall (ρ : Type u)
  | addRequest (request : ρ)
  | popRequest
  | prependRequest (request : ρ)
  | prependRequests (requests : List ρ)
  | removeRequest (request : ρ)
  | removeRequests (requests : List ρ)

variable (key q) in
def call [DecidableEq ρ] : QueueCall ρ → Except PyError (RequestQueue ρ)
  | .addRequest request => .ok (q.addRequest key request)
  | .popRequest => do
    let (_, q) ← q.popRequest key
    .ok q
  | .prependRequest request => .ok (q.prependRequest key request)
  | .prependRequests requests => .ok (q.prependRequests key requests)
  | .removeRequest request => q.removeRequest key request
  | .removeRequests requests => .ok (q.removeRequests key requests)

variable (key) in
def runCalls [DecidableEq ρ] : List (QueueCall ρ) → RequestQueue ρ → Except PyError (RequestQueue ρ)
  | [], q => .ok q
  | call :: rest, q => do
    let q ← q.call key call
    runCalls rest q

/-- A priority queue in order. -/
structure Heap (key : ρ → κ) (q : RequestQueue ρ) : Prop where
  policy : q.policy = .priority
  isHeap : Heapq.IsHeap key q.items

theorem Heap.congr {key' : ρ → κ} (h : q.Heap key) (same : ∀ x ∈ q.items, key' x = key x) :
    q.Heap key' :=
  ⟨h.policy, h.isHeap.congr same⟩

theorem Heap.addRequest (h : q.Heap key) (request : ρ) : (q.addRequest key request).Heap key := by
  refine ⟨by simp [h.policy], ?_⟩
  unfold RequestQueue.addRequest
  rw [h.policy]
  exact Heapq.heappush_isHeap h.isHeap request

theorem Heap.prependRequest (h : q.Heap key) (request : ρ) :
    (q.prependRequest key request).Heap key := by
  refine ⟨by simp [h.policy], ?_⟩
  unfold RequestQueue.prependRequest
  rw [h.policy]
  exact Heapq.heappush_isHeap h.isHeap request

theorem Heap.prependRequests (h : q.Heap key) (requests : List ρ) :
    (q.prependRequests key requests).Heap key := by
  have pushed : ∀ heap : List ρ, Heapq.IsHeap key heap →
      Heapq.IsHeap key (PriorityRequestQueue.prependRequests key heap requests) := by
    unfold PriorityRequestQueue.prependRequests
    induction requests with
    | nil => exact fun heap hheap => hheap
    | cons r rest ih => exact fun heap hheap => ih _ (Heapq.heappush_isHeap hheap r)
  refine ⟨by simp [h.policy], ?_⟩
  unfold RequestQueue.prependRequests
  rw [h.policy]
  exact pushed q.items h.isHeap

theorem heap_removeRequests [DecidableEq ρ] (policy : q.policy = .priority) (requests : List ρ) :
    (q.removeRequests key requests).Heap key := by
  refine ⟨by simp [policy], ?_⟩
  unfold removeRequests
  rw [policy]
  exact Heapq.heapify_isHeap _

theorem heap_removeRequest [DecidableEq ρ] (policy : q.policy = .priority)
    (h : q.removeRequest key request = .ok q') : q'.Heap key := by
  unfold removeRequest at h
  rw [policy] at h
  have ⟨items, hitems, h⟩ := bind_eq_ok.mp h
  cases h
  refine ⟨rfl, ?_⟩
  unfold PriorityRequestQueue.removeRequest at hitems
  split at hitems
  · cases hitems
    exact Heapq.heapify_isHeap _
  · cases hitems

theorem Heap.popRequest (h : q.Heap key) (hpop : q.popRequest key = .ok (request, q')) : q'.Heap key := by
  refine ⟨(popRequest_ok hpop).1.trans h.policy, ?_⟩
  unfold RequestQueue.popRequest at hpop
  rw [h.policy] at hpop
  have ⟨⟨popped, items⟩, hitems, hpop⟩ := bind_eq_ok.mp hpop
  cases hpop
  dsimp only
  unfold PriorityRequestQueue.popRequest at hitems
  split at hitems
  · rename_i heq
    cases hitems
    have hne : q.items ≠ [] := by
      intro hnil
      rw [hnil] at heq
      cases heq
    have ⟨_, rest, hrest, _, heap, _⟩ := Heapq.heappop_ok h.isHeap hne
    cases heq.symm.trans hrest
    exact heap
  · cases hitems

theorem Heap.call [DecidableEq ρ] {call : QueueCall ρ} (h : q.Heap key)
    (hcall : q.call key call = .ok q') : q'.Heap key := by
  cases call with
  | addRequest request =>
    cases hcall
    exact h.addRequest request
  | popRequest =>
    have ⟨⟨request, q₁⟩, hpop, hcall⟩ := bind_eq_ok.mp hcall
    cases hcall
    exact h.popRequest hpop
  | prependRequest request =>
    cases hcall
    exact h.prependRequest request
  | prependRequests requests =>
    cases hcall
    exact h.prependRequests requests
  | removeRequest request => exact heap_removeRequest h.policy hcall
  | removeRequests requests =>
    cases hcall
    exact heap_removeRequests h.policy requests

theorem Heap.runCalls [DecidableEq ρ] {calls : List (QueueCall ρ)}
    (h : q.Heap key) (hrun : RequestQueue.runCalls key calls q = .ok q') : q'.Heap key := by
  induction calls generalizing q with
  | nil =>
    cases hrun
    exact h
  | cons call rest ih =>
    have ⟨q₁, hcall, hrun⟩ := bind_eq_ok.mp hrun
    exact ih (h.call hcall) hrun

/-- A queue that hands out its requests by rank. -/
structure Serves {δ : Type*} [LE δ] (key : ρ → κ) (rank : ρ → δ) (q : RequestQueue ρ) : Prop where
  isHeap : Heapq.IsHeap key q.items
  peek : ∀ r, q.peekRequest = .ok r → r ∈ q.items ∧ ∀ x ∈ q.items, rank r ≤ rank x
  pop : ∀ r q', q.popRequest key = .ok (r, q') →
    (r :: q'.items).Perm q.items ∧ ∀ x ∈ q.items, rank r ≤ rank x
  serves : q.items ≠ [] → (∃ r, q.peekRequest = .ok r) ∧ ∃ r q', q.popRequest key = .ok (r, q')
  iter : (q.iter key).Perm q.items ∧ (q.iter key).Pairwise fun x y => rank x ≤ rank y

theorem Heap.serves {δ : Type*} [LE δ] {rank : ρ → δ} (h : q.Heap key)
    (mono : ∀ x y, key x ≤ key y → rank x ≤ rank y) : q.Serves key rank := by
  have least : ∀ r, q.items.head? = some r → ∀ x ∈ q.items, rank r ≤ rank x :=
    fun r hr x hx => mono r x (h.isHeap.head_le hr hx)
  constructor
  · exact h.isHeap
  · intro r hr
    have head := peekRequest_ok.mp hr
    exact ⟨mem_of_mem_head? head, least r head⟩
  · intro r q' hpop
    have ⟨_, head, perm⟩ := popRequest_ok hpop
    exact ⟨perm, least r head⟩
  · intro hne
    have ⟨r, rest, hpop, head, _⟩ := Heapq.heappop_ok h.isHeap hne
    refine ⟨⟨r, peekRequest_ok.mpr head⟩, r, { q with items := rest }, ?_⟩
    unfold RequestQueue.popRequest PriorityRequestQueue.popRequest
    rw [h.policy, hpop]
    rfl
  · have ⟨sorted, perm⟩ := Heapq.drain_sorted q.items.length h.isHeap rfl
    unfold RequestQueue.iter
    rw [h.policy]
    exact ⟨perm, sorted.imp fun hxy => mono _ _ hxy⟩

end RequestQueue

end VllmAmpere
