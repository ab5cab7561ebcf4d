import Reclaim.Area.Classify

/-!
# Appending blocks

A block is appended at the head of its log. A log that has filled its segment moves on to the next
segment of the same section if that is free, and otherwise to the first free section after it. It
moves on as soon as the last block of a segment is written; if nothing is free then, the log stays
on its full segment and the next append tries again.
-/

namespace Reclaim.Area

/-- The segment that a log moves on to from a segment. -/
def successor? (a : Area) (old : Nat) : Option Nat :=
  let g := a.geometry
  let seg := old + 1
  if seg % g.segmentsPerSection ≠ 0 ∧ seg < g.segments ∧ !a.free.usedSegments.contains seg then
    some seg
  else
    (a.free.find? g ((g.sectionOf old + 1) % g.sections)).map g.firstSegment

/-- Moves a log on to a new segment and classifies the one it leaves. -/
def advance (a : Area) (log : Log) : Guarded (Outcome Unit × Area) := do
  let old := (a.heads.get log).segment
  match a.successor? old with
  | none => return (.error .noSpace, a)
  | some seg =>
    let a ← a.openSegment log seg
    let a ← a.classify old
    return (.ok (), a)

/-- Writes a block at the head of a log, which is inside its segment, and moves the log on when
the segment is full; a log that finds nothing free then stays where it is. -/
def append (a : Area) (log : Log) (now : Nat) : Guarded (Address × Area) := do
  let head := a.heads.get log
  let (_, table) ← a.table.fill head.segment head.next now
  let addr := a.geometry.startBlock head.segment + head.next
  let a := { a with table, heads := a.heads.set log { head with next := head.next + 1 } }
  if a.geometry.segmentBlocks ≤ head.next + 1 then
    let (_, a) ← a.advance log
    return (addr, a)
  else
    return (addr, a)

/-- Appends a block to a log at a time and tells its address. The log must be named. -/
def allocate (a : Area) (log : Option Log) (now : Nat) : Guarded (Outcome Address × Area) :=
  match log with
  | none => return (.error .invalidArgument, a)
  | some log => do
    if a.geometry.segmentBlocks ≤ (a.heads.get log).next then
      match ← a.advance log with
      | (.error status, a) => return (.error status, a)
      | (.ok (), a) =>
        let (addr, a) ← a.append log now
        return (.ok addr, a)
    else
      let (addr, a) ← a.append log now
      return (.ok addr, a)

/-- Appends a number of blocks to a log, up to the first that is refused, and tells their addresses
and the refusal. -/
def allocateMany (a : Area) (log : Option Log) (now : Nat) :
    Nat → Guarded ((List Address × Option Status) × Area)
  | 0 => return (([], none), a)
  | left + 1 => do
    match ← a.allocate log now with
    | (.error status, a) => return (([], some status), a)
    | (.ok addr, a) =>
      let ((addrs, refused), a) ← a.allocateMany log now left
      return ((addr :: addrs, refused), a)

end Reclaim.Area
