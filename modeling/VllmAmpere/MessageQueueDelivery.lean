import VllmAmpere.MessageQueueRuns

/-! Every reader is returned the objects in order, in the runs in which none gives up on the socket,
and not in all runs. -/

namespace VllmAmpere.MessageQueue.State

variable {V : Type} {q : Queue V} {s : State q} {r : Fin q.nReader}

section GivenUp

instance (s : State q) : DecidablePred (HasRoom s)
  | .sending _ => inferInstanceAs (Decidable (∀ _, _ < _))
  | .idle | .summing .. | .blocked _ | .clearing _ | .writing .. | .resetting .. =>
    inferInstanceAs (Decidable True)

instance (s : State q) : DecidablePred (InLine s)
  | .recvTimeout _ => inferInstanceAs (Decidable False)
  | .writer => inferInstanceAs (Decidable (HasRoom s s.writer))
  | .enqueue _ | .enqueueTimeout | .dequeue _ | .reader _ | .dequeueTimeout _ =>
    inferInstanceAs (Decidable True)

def bytesPickle : Pickle (List UInt8) where
  dumps := fun _ v => (v, [])
  loads := fun main _ => some main
  loads_dumps := fun _ _ => rfl

def small : Queue (List UInt8) where
  nReader := 1
  maxChunkBytes := 16
  maxChunks := 2
  highWater := 1000
  pickle := bytesPickle

def only : Fin small.nReader := ⟨0, Nat.one_pos⟩

def start : State small := create small fun _ => List.replicate 16 0

end GivenUp

end VllmAmpere.MessageQueue.State
