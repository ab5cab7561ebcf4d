import Reclaim.Background.Worker

/-!
# Scripted sessions of a worker

A session runs a worker and its owner in lockstep: the owner makes its moves only while the target
is being asked or the worker is asleep. Each round of a script says whether the owner pauses the
worker while the target is asked, what the target answers, and how collecting ends. `Worker.play`
plays one round and tells what is seen of the worker on the way.
-/

namespace Reclaim

/-- A move of the owner of a worker, starting it apart. -/
inductive OwnerMove where
  /-- Make no rounds until resumed. -/
  | pause
  /-- Make rounds again. -/
  | resume
  /-- End the loop. -/
  | stop
deriving DecidableEq

/-- What happens in one round of a session. -/
structure RoundScript where
  /-- Whether the owner pauses the worker while the target is asked, and resumes it afterwards. -/
  pauses : Bool
  /-- Whether the target says that collecting is worth while. -/
  worthwhile : Bool
  /-- The answer of the run that the target makes, if it can make one. -/
  run : Option (Outcome Nat)

/-- What is seen of a worker in one round of a session. -/
structure RoundView where
  /-- The worker when its target is asked. -/
  asked : Worker
  /-- The worker after it has been paused, if it is. -/
  paused : Option Worker
  /-- The worker while its target collects, if it does. -/
  collecting : Option Worker
  /-- Whether a worker that is paused asks its target again, if it is paused. -/
  askedAgain : Option Bool

namespace Worker

/-- Makes a move of the owner. -/
def move (w : Worker) : OwnerMove → Worker
  | .pause => w.pause
  | .resume => w.resume
  | .stop => w.stop

/-- The worker after each of a list of moves of the owner. -/
def moves (w : Worker) : List OwnerMove → List Worker
  | [] => []
  | m :: rest => w.move m :: (w.move m).moves rest

/-- Whether a sleeping worker would ask its target if it woke now. -/
def wouldAsk (w : Worker) : Bool :=
  match (w.wake true).stage with
  | .asking _ => true
  | _ => false

/-- Plays one round of a session with a sleeping worker. -/
def play (w : Worker) (script : RoundScript) : Guarded (RoundView × Worker) := do
  let asked := w.wake true
  let held := if script.pauses then asked.pause else asked
  let answered ← held.answer script.worthwhile
  let settled ← answered.settle (RoundOutcome.ofRun script.run)
  let view : RoundView :=
    { asked
      paused := if script.pauses then some held else none
      collecting := if script.worthwhile then some answered else none
      askedAgain := if script.pauses then some settled.wouldAsk else none }
  return (view, if script.pauses then settled.resume else settled)

/-- Plays the rounds of a session. -/
def playAll (w : Worker) : List RoundScript → Guarded (List RoundView × Worker)
  | [] => return ([], w)
  | script :: rest => do
    let (view, w) ← w.play script
    let (views, w) ← w.playAll rest
    return (view :: views, w)

end Worker

end Reclaim
