import Mathlib.Tactic.Ring

/-! Positions that are dealt out to some owners in turn, a run of a fixed length to each, and the
place of a position among those of its owner. -/

namespace VllmAmpere.Interleaving

variable (run owners : Nat)

def owner (v : Nat) : Nat := v / run % owners

def place (v : Nat) : Nat := v / (owners * run) * run + v % run

variable {run owners} {v o l size : Nat}

end VllmAmpere.Interleaving
