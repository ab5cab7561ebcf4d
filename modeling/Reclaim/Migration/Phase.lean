/-!
# The phase of a collection run

A run searches for a victim, migrates it, writes checkpoints, and returns to rest. Others may read
the phase at any time; only the run itself moves it. Each move names the phases it may start from
and is refused from any other.
-/

namespace Reclaim

/-- The phase of a collection run. -/
inductive Phase where
  /-- No run is in progress. -/
  | rest
  /-- The dirty lists are being searched. -/
  | selecting
  /-- The live blocks of a victim are being moved. -/
  | migrating
  /-- A checkpoint is being written. -/
  | checkpointing
deriving DecidableEq

namespace Phase

/-- The name under which a phase is reported. -/
def name : Phase → String
  | .rest => "Rest"
  | .selecting => "SelectingVictim"
  | .migrating => "Migrating"
  | .checkpointing => "Checkpointing"

/-- The phase with a number; numbers without one stand for rest. -/
def ofNumber : Nat → Phase
  | 1 => .selecting
  | 2 => .migrating
  | 3 => .checkpointing
  | _ => .rest

end Phase

/-- The phase of the run in progress and the number of runs completed. -/
structure Progress where
  /-- The phase of the run in progress. -/
  phase : Phase
  /-- The number of completed runs; it wraps. -/
  runs : UInt64
deriving DecidableEq

namespace Progress

/-- At rest, before any run. -/
def initial : Progress := ⟨.rest, 0⟩

/-- Whether a run is in progress. -/
def isActive (p : Progress) : Bool := p.phase ≠ .rest

/-- Moves to a phase from one of a list of phases, telling whether the move was allowed. -/
def move (p : Progress) (froms : List Phase) (goal : Phase) : Bool × Progress :=
  if p.phase ∈ froms then (true, { p with phase := goal }) else (false, p)

/-- Starts a run; refused while one is in progress. -/
def begin (p : Progress) : Bool × Progress := p.move [.rest] .selecting

/-- A victim has been chosen. -/
def toMigrating (p : Progress) : Bool × Progress := p.move [.selecting] .migrating

/-- A section or a checkpoint is done; the next victim is looked for. -/
def toSelecting (p : Progress) : Bool × Progress := p.move [.migrating, .checkpointing] .selecting

/-- Prefree segments are to be released. -/
def toCheckpointing (p : Progress) : Bool × Progress :=
  p.move [.selecting, .migrating] .checkpointing

/-- Ends the run from any phase and counts it; there is nothing to end at rest. -/
def complete (p : Progress) : Bool × Progress :=
  if p.phase = .rest then (false, p) else (true, ⟨.rest, p.runs + 1⟩)

end Progress

end Reclaim
