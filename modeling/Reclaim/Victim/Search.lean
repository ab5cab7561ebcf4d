import Reclaim.Victim.Cost

/-!
# The victim search

`Area.findVictim` finds the cheapest candidate of a policy. It sweeps the scanned list upwards from
the cursor and, having reached the end of the area, once more from its start up to the cursor. The
first listed segment of each unit is a candidate; candidates in busy sections are passed over, and
so are those in staged sections when the search is for the background. A search that has used up
its budget leaves the cursor behind the last candidate, so that repeated searches cover the whole
area; one that runs out of candidates sets it back to the start.

A victim that is to be reclaimed whole is claimed at once: a foreground victim as the section under
collection, a background victim by staging it. A foreground search takes over the lowest staged
section that is not busy before it searches at all.
-/

namespace Reclaim

/-- The position of a sweep over the area. -/
structure Sweep where
  /-- The next segment to look at. -/
  offset : Nat
  /-- The end of the part being swept. -/
  stop : Nat
  /-- Whether the sweep has gone back to the start of the area. -/
  wrapped : Bool

namespace Sweep

/-- The position behind the unit of a segment. -/
def behind (unit seg : Nat) : Nat := seg + unit - seg % unit

/-- The next candidate of a sweep that began at `resume`, and the sweep behind its unit. -/
def next? (map : Bitmap) (unit resume : Nat) (s : Sweep) : Option (Nat × Sweep) :=
  let seg := map.next s.offset s.stop
  if seg < s.stop then
    some (seg, { s with offset := behind unit seg })
  else if resume ≠ 0 ∧ !s.wrapped then
    let seg := map.next 0 resume
    if seg < resume then some (seg, ⟨behind unit seg, resume, true⟩) else none
  else
    none

end Sweep

/-- What a scan has found: the best candidate with its cost, the table with its age bounds widened
by the candidates costed, and the cursor to resume from. -/
structure Found where
  /-- The best candidate. -/
  best : Option Nat
  /-- The cost of the best candidate, or the largest cost of the policy. -/
  cost : Nat
  /-- The table after the scan. -/
  table : SegmentTable
  /-- Where the next scan resumes. -/
  cursor : Nat

namespace Area

/-- Whether a search for a trigger passes a section over. -/
def isPassedOver (a : Area) (trigger : Trigger) (sec : Nat) : Bool :=
  a.isBusySection sec || (trigger = .background && a.dirty.staged.contains sec)

/-- Weighs a candidate against the best one so far. Only a lower cost replaces it. -/
def weigh (a : Area) (p : Policy) (trigger : Trigger) (seg : Nat) (f : Found) :
    Guarded Found := do
  if a.isPassedOver trigger (a.geometry.sectionOf seg) then
    return f
  else
    let (cost, table) ← f.table.cost a.geometry seg p
    if cost < f.cost then
      return { f with best := some seg, cost, table }
    else
      return { f with table }

/-- Weighs the candidates of a sweep, the first one and at most `left` after it. -/
def scan (a : Area) (p : Policy) (trigger : Trigger) : Nat → Sweep → Found → Guarded Found
  | left, sweep, f =>
    match sweep.next? (a.dirty.roster p.scanned).map p.unit p.offset with
    | none => return { f with cursor := 0 }
    | some (seg, sweep) => do
      let f ← a.weigh p trigger seg f
      match left with
      | 0 => return { f with cursor := (seg + 1) % a.geometry.segments }
      | left + 1 => a.scan p trigger left sweep f

/-- The lowest staged section that is not busy. -/
def stagedVictim? (a : Area) : Option Nat :=
  a.dirty.staged.toList.find? fun sec => !a.isBusySection sec

/-- Claims the section of a chosen segment and answers with the first segment of its unit. -/
def claim (a : Area) (p : Policy) (trigger : Trigger) (seg : Nat) :
    Guarded (Outcome Nat × Area) := do
  let answer := seg - seg % p.unit
  match p.reuse, trigger with
  | .slots, _ => return (.ok answer, a)
  | .wholeSection, .foreground =>
    return (.ok answer, { a with claimed := some (a.geometry.sectionOf seg) })
  | .wholeSection, .background => do
    let (_, dirty) ← a.dirty.stage (a.geometry.sectionOf seg)
    return (.ok answer, { a with dirty })

/-- Searches the scanned list for the cheapest candidate and claims it. -/
def searchVictim (a : Area) (p : Policy) (trigger : Trigger) : Guarded (Outcome Nat × Area) := do
  let maxCost ← p.maxCost a.geometry
  let f ← a.scan p trigger (p.budget - 1) ⟨p.offset, a.geometry.segments, false⟩
    ⟨none, maxCost, a.table, 0⟩
  let a := { a with table := f.table, cursors := a.cursors.set p.ranking f.cursor }
  match f.best with
  | none => return (.error .unavailable, a)
  | some seg => a.claim p trigger seg

/-- Finds the cheapest victim for a trigger among the segments of a log, or of any log, and claims
it. -/
def findVictim (a : Area) (trigger : Trigger) (log : Option Log) (reuse : Reuse) :
    Guarded (Outcome Nat × Area) := do
  let p ← a.checkedPolicy trigger log reuse
  if p.budget = 0 then
    return (.error .unavailable, a)
  else
    match reuse, trigger, a.stagedVictim? with
    | .wholeSection, .foreground, some sec => do
      let (_, dirty) ← a.dirty.unstage sec
      { a with dirty }.claim p trigger (a.geometry.firstSegment sec)
    | _, _, _ => a.searchVictim p trigger

end Area

end Reclaim
