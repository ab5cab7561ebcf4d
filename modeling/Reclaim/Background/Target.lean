import Reclaim.Background.Worker
import Reclaim.Migration.Run

/-!
# What the background worker drives

The target of the worker is collection itself. `Pacing.isDue` says whether a round is worth making,
`Backend.collect` makes it unless another run is in progress, and `Backend.turn` is one turn of the
loop of a worker with this target.
-/

namespace Reclaim

variable {σ : Type}

/-- Whether collecting an area now is worth while. -/
def Pacing.isDue (p : Pacing) (a : Area) : Guarded Bool :=
  a.isWorthCollecting p.invalidPct p.freePct

namespace Backend

/-- Makes a round, unless another run is in progress. -/
def collect (b : Backend σ) : Act σ (Option (Outcome Nat)) := b.tryRun 0

/-- Wakes a worker and sees it through the round that it makes, if it makes one. -/
def turn (b : Backend σ) (w : Worker) : Act σ Worker := do
  let asking := w.wake true
  match asking.stage with
  | .asking _ =>
    let due ← Act.askArea asking.pacing.isDue
    let answered ← liftM (asking.answer due)
    if due then
      let result ← b.collect
      liftM (answered.settle (RoundOutcome.ofRun result))
    else
      return answered
  | _ => return asking

end Backend

end Reclaim
