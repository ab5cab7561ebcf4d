import Reclaim.Area.Checkpoint
import Reclaim.Victim.Search
import Reclaim.Migration.Pass

/-!
# Collection runs

A run collects sections until enough of them are free. It begins in the background; once free
sections are short it writes a checkpoint and goes on in the foreground, where every section
collected counts as freed. A last checkpoint then releases what the foreground passes emptied. The
collection lock admits one run at a time.

A foreground pass always brings the run closer to its end, since each one that succeeds counts a
section as freed. `passBound` is the number of passes that this allows, and the loop is given no
more.
-/

namespace Reclaim

variable {σ : Type}

/-- What a run has done so far. -/
structure RunReport where
  /-- For whom the run collects at present. -/
  trigger : Trigger
  /-- The sections counted as freed. -/
  freed : Nat
  /-- The passes made, first one first: for whom, and the first segment of the section. -/
  passes : List (Trigger × Nat)

namespace RunReport

/-- A run that has done nothing yet. -/
def initial : RunReport := ⟨.background, 0, []⟩

/-- Whether a victim has been found. -/
def foundVictim (r : RunReport) : Bool := !r.passes.isEmpty

end RunReport

/-- The passes that a run for a number of blocks can take: one in the background, and one in the
foreground for each section of the reserve and of the blocks, and one more. -/
def Area.passBound (a : Area) (needed : Nat) : Nat :=
  a.geometry.reserved + a.sectionsFor needed + 3

namespace Backend

/-- Writes a checkpoint and releases the prefree segments. -/
def checkpoint (b : Backend σ) : Act σ (Outcome Unit) := do
  match ← b.writeCheckpoint with
  | .error status => return .error status
  | .ok () =>
    let _ ← Act.onArea Area.checkpoint
    return .ok ()

/-- Turns a background run to the foreground, with a checkpoint, when free sections are short. -/
def escalate (b : Backend σ) (needed : Nat) (r : RunReport) : Act σ (RunReport × Outcome Unit) := do
  let short ← Act.readArea (·.isShort r.freed needed)
  if r.trigger = .background ∧ short then
    let _ ← Act.progress Progress.toCheckpointing
    match ← b.checkpoint with
    | .error status => return ({ r with trigger := .foreground }, .error status)
    | .ok () =>
      let _ ← Act.progress Progress.toSelecting
      return ({ r with trigger := .foreground }, .ok ())
  else
    return (r, .ok ())

/-- Collects a chosen section. A foreground pass counts it as freed and gives up the claim on it; a
background pass that has given way is no failure of the run. -/
def pass (b : Backend σ) (r : RunReport) (seg : Nat) : Act σ (RunReport × Outcome Unit) := do
  let _ ← Act.progress Progress.toMigrating
  let result ← b.collectSection seg r.trigger
  let _ ← Act.progress Progress.toSelecting
  let r := { r with passes := r.passes ++ [(r.trigger, seg)] }
  match r.trigger, result with
  | .foreground, .ok () =>
    Act.claim none
    if r.freed + 1 < 0x1_0000_0000 then
      return ({ r with freed := r.freed + 1 }, .ok ())
    else
      Act.stop .width
  | .foreground, .error status => return (r, .error status)
  | .background, .error .badState => return (r, .ok ())
  | .background, .ok () => return (r, .ok ())
  | .background, .error status => return (r, .error status)

/-- Makes passes until free sections are no longer short or no victim is left. -/
def passes (b : Backend σ) (needed : Nat) : Nat → RunReport → Act σ (RunReport × Outcome Unit)
  | 0, _ => Act.stop .runaway
  | bound + 1, r => do
    match ← b.escalate needed r with
    | (r, .error status) => return (r, .error status)
    | (r, .ok ()) =>
      match ← Act.onArea (·.findVictim r.trigger none .wholeSection) with
      | .error .unavailable => return (r, .ok ())
      | .error status => return (r, .error status)
      | .ok seg =>
        match ← b.pass r seg with
        | (r, .error status) => return (r, .error status)
        | (r, .ok ()) =>
          if ← Act.readArea (·.isShort r.freed needed) then
            b.passes needed bound r
          else
            return (r, .ok ())

/-- Ends a run whose passes went well. A foreground run that freed nothing and is still short fails
for want of space and otherwise writes the last checkpoint; a background run fails if it found no
victim. -/
def finish (b : Backend σ) (needed : Nat) (r : RunReport) : Act σ (Outcome Nat) := do
  match r.trigger with
  | .foreground =>
    let short ← Act.readArea (·.isShort 0 needed)
    if r.freed = 0 ∧ short then
      return .error .noSpace
    else
      let _ ← Act.progress Progress.toCheckpointing
      match ← b.checkpoint with
      | .error status => return .error status
      | .ok () => return .ok r.freed
  | .background => if r.foundVictim then return .ok r.freed else return .error .unavailable

/-- The body of a run: its report, and the number of sections freed. -/
def runBody (b : Backend σ) (needed : Nat) : Act σ (RunReport × Outcome Nat) := do
  if ← b.checkpointFailed then
    return (RunReport.initial, .error .badState)
  else
    let bound ← Act.readArea (·.passBound needed)
    match ← b.passes needed bound RunReport.initial with
    | (r, .error status) => return (r, .error status)
    | (r, .ok ()) =>
      let result ← b.finish needed r
      return (r, result)

/-- A run, with its report. It must find collection at rest, and leaves it at rest with no section
claimed. -/
def run (b : Backend σ) (needed : Nat) : Act σ (RunReport × Outcome Nat) := do
  if ← Act.progress Progress.begin then
    let result ← b.runBody needed
    Act.claim none
    let _ ← Act.progress Progress.complete
    return result
  else
    return (RunReport.initial, .error .badState)

/-- Makes a run that holds the collection lock. -/
def runLocked (b : Backend σ) (needed : Nat) : Act σ (Outcome Nat) := do
  Act.lock true
  let (_, result) ← b.run needed
  Act.lock false
  return result

/-- Collects until `needed` blocks can be written without touching the reserve, and tells how many
sections the foreground passes freed. A caller that holds the lock itself would wait for ever. -/
def startRun (b : Backend σ) (needed : Nat) : Act σ (Outcome Nat) := fun w =>
  if w.collector.locked then .error .deadlock else b.runLocked needed w

/-- Collects as `startRun` does, unless another run holds the lock; then there is no answer. -/
def tryRun (b : Backend σ) (needed : Nat) : Act σ (Option (Outcome Nat)) := fun w =>
  if w.collector.locked then .ok (none, w) else (some <$> b.runLocked needed) w

/-- Collects only if writing `needed` blocks would leave too few free sections and foreground
collection is not switched off. -/
def balance (b : Backend σ) (needed : Nat) : Act σ (Outcome Nat) := fun w =>
  if w.area.foregroundOff || !w.area.isShort 0 needed then
    .ok (.ok 0, w)
  else
    b.startRun needed w

end Backend

end Reclaim
