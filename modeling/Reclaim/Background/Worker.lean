import Reclaim.Background.Pacing
import Reclaim.Background.Rounds

/-!
# The background worker

The worker runs a loop beside its owner: it sleeps, asks its target whether collecting is worth
while, collects, and chooses its next sleep. The owner may start, stop, pause and resume it at any
time, and it ends by itself when its target has gone. `Stage` is where the loop stands. `start`,
`stop`, `pause` and `resume` are the moves of the owner, `enter`, `wake`, `answer` and `settle`
those of the loop. The reported state is a value of its own that both sides write.
-/

namespace Reclaim

/-- The reported state of a worker. -/
inductive WorkerState where
  /-- The worker does not run. -/
  | stopped
  /-- The worker sleeps between rounds. -/
  | idle
  /-- The worker collects. -/
  | collecting
  /-- The worker is paused. -/
  | paused
deriving DecidableEq

namespace WorkerState

/-- The state with a number; numbers without one stand for stopped. -/
def ofNumber : Nat → WorkerState
  | 1 => .idle
  | 2 => .collecting
  | 3 => .paused
  | _ => .stopped

/-- The name under which a state is reported. -/
def name : WorkerState → String
  | .stopped => "Stopped"
  | .idle => "Idle"
  | .collecting => "Collecting"
  | .paused => "Paused"

end WorkerState

/-- Where the loop of a worker stands. -/
inductive Stage where
  /-- There is no loop. -/
  | absent
  /-- The loop has been started and not yet entered. -/
  | spawned
  /-- The loop sleeps for a length of time. -/
  | asleep (wait : Nat)
  /-- The target is asked whether collecting is worth while. -/
  | asking (wait : Nat)
  /-- The target collects. -/
  | collecting (wait : Nat)
deriving DecidableEq

/-- A background worker. -/
structure Worker where
  /-- When the worker collects and how long it sleeps. -/
  pacing : Pacing
  /-- Whether the worker is to run. -/
  running : Bool
  /-- Whether the worker is to make no rounds for the time being. -/
  paused : Bool
  /-- The reported state. -/
  state : WorkerState
  /-- The statistics of the rounds. -/
  rounds : Rounds
  /-- Where the loop stands. -/
  stage : Stage

namespace Worker

/-- A worker that has not been started. -/
def create (pacing : Pacing) : Worker := ⟨pacing, false, false, .stopped, {}, .absent⟩

/-! ## Moves of the owner -/

/-- Starts the loop, unless the worker runs already. -/
def start (w : Worker) : Bool × Worker :=
  if w.running then (false, w) else (true, { w with running := true, stage := .spawned })

/-- Ends the loop and waits for it; a round in progress is not waited for by this move, which is
made between rounds. -/
def stop (w : Worker) : Worker := { w with running := false, stage := .absent, state := .stopped }

/-- Makes no rounds until resumed. -/
def pause (w : Worker) : Worker := { w with paused := true, state := .paused }

/-- Makes rounds again. -/
def resume (w : Worker) : Worker :=
  if w.running then { w with paused := false, state := .idle } else { w with paused := false }

/-! ## Moves of the loop -/

/-- Enters the loop, which begins with the shortest sleep. -/
def enter (w : Worker) : Worker :=
  match w.stage with
  | .spawned => { w with state := .idle, stage := .asleep w.pacing.minSleep }
  | _ => w

/-- Wakes from sleep. A paused worker sleeps again; one whose target has gone ends; any other asks
its target. -/
def wake (w : Worker) (targetAlive : Bool) : Worker :=
  match w.stage with
  | .asleep wait =>
    if w.paused then w
    else if targetAlive then { w with stage := .asking wait }
    else { w with running := false, state := .stopped, stage := .absent }
  | _ => w

/-- Goes to sleep after a round with an outcome. -/
def sleep (w : Worker) (wait : Nat) (outcome : RoundOutcome) : Guarded Worker := do
  let wait ← w.pacing.nextSleep wait outcome
  return { w with rounds := w.rounds.noteSleep wait, stage := .asleep wait }

/-- Takes the answer of the target: collects, or goes back to sleep. -/
def answer (w : Worker) (worthwhile : Bool) : Guarded Worker :=
  match w.stage with
  | .asking wait =>
    if worthwhile then return { w with state := .collecting, stage := .collecting wait }
    else w.sleep wait .notWorthwhile
  | _ => return w

/-- Counts a round by its outcome. -/
def count (r : Rounds) : RoundOutcome → Rounds
  | .notWorthwhile => r
  | .busy => r
  | .freed sections => r.countSuccess sections 0
  | .noVictim => r.countIdle
  | .failed _ => r.countFailure

/-- Takes the outcome of collecting, counts it and goes to sleep; the state turns to idle unless the
worker was paused meanwhile. -/
def settle (w : Worker) (outcome : RoundOutcome) : Guarded Worker :=
  match w.stage with
  | .collecting wait => do
    let w ← { w with rounds := count w.rounds outcome }.sleep wait outcome
    return if w.paused then w else { w with state := .idle }
  | _ => return w

end Worker

end Reclaim
