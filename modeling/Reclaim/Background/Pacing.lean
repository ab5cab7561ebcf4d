import Reclaim.Status
import Reclaim.Trap

/-!
# How often the background collects

The background worker sleeps between rounds. A round that was productive shortens the next sleep,
one that failed or was not worth making lengthens it, by the shortest sleep in either case; a round
that found no victim at all is followed by a sleep of its own length. Lengths of time are counted
in nanoseconds.
-/

namespace Reclaim

/-- The first length of time in nanoseconds that is too long to be represented: `2 ^ 64` seconds. -/
def timeLimit : Nat := 0x1_0000_0000_0000_0000 * 1_000_000_000

/-- When the background collects and how long it sleeps. -/
structure Pacing where
  /-- The shortest sleep, which is also the step by which sleeps change. -/
  minSleep : Nat := 30_000_000_000
  /-- The longest sleep. -/
  maxSleep : Nat := 60_000_000_000
  /-- The sleep after a round that found no victim. -/
  idleSleep : Nat := 300_000_000_000
  /-- The percentage of the area that must hold nothing live. -/
  invalidPct : Nat := 40
  /-- The percentage of what holds nothing live that free space must stay below. -/
  freePct : Nat := 40
deriving DecidableEq

/-- How a round of the worker went. -/
inductive RoundOutcome where
  /-- Collecting was not worth while. -/
  | notWorthwhile
  /-- Another run was in progress. -/
  | busy
  /-- A victim was collected and a number of sections freed. -/
  | freed (sections : Nat)
  /-- There was no victim. -/
  | noVictim
  /-- The run failed. -/
  | failed (status : Status)

/-- The outcome of a round by the answer of the run it made, if it could make one. -/
def RoundOutcome.ofRun : Option (Outcome Nat) → RoundOutcome
  | none => .busy
  | some (.ok sections) => .freed sections
  | some (.error .unavailable) => .noVictim
  | some (.error status) => .failed status

namespace Pacing

/-- Sets the percentage of the area that must hold nothing live, at most 100. -/
def withInvalidPct (p : Pacing) (pct : Nat) : Pacing := { p with invalidPct := min pct 100 }

/-- Sets the percentage that free space must stay below, at most 100. -/
def withFreePct (p : Pacing) (pct : Nat) : Pacing := { p with freePct := min pct 100 }

/-- A longer sleep, up to the longest. -/
def lengthen (p : Pacing) (wait : Nat) : Guarded Nat :=
  if wait + p.minSleep < timeLimit then .ok (min (wait + p.minSleep) p.maxSleep)
  else .error .width

/-- A shorter sleep, down to the shortest. -/
def shorten (p : Pacing) (wait : Nat) : Nat := max (wait - p.minSleep) p.minSleep

/-- The sleep after a round that was preceded by a sleep of a given length. -/
def nextSleep (p : Pacing) (wait : Nat) : RoundOutcome → Guarded Nat
  | .notWorthwhile => p.lengthen wait
  | .busy => return wait
  | .freed _ => return p.shorten wait
  | .noVictim => return p.idleSleep
  | .failed _ => p.lengthen wait

end Pacing

end Reclaim
