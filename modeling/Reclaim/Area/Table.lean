import Reclaim.Geometry
import Reclaim.Area.Segment

/-!
# The segment table

The table holds the record of every segment, the number of live blocks in the whole area, and the
bounds of the ages seen so far, against which ages are scaled when sections are compared. The
bounds start out inverted, so that the first age seen sets both.
-/

namespace Reclaim

/-- The records of all segments. -/
structure SegmentTable where
  /-- The record of each segment. -/
  records : Array Segment
  /-- The number of live blocks in the area. -/
  live : Nat
  /-- The smallest age seen. -/
  oldest : Nat
  /-- The largest age seen. -/
  newest : Nat

namespace SegmentTable

/-- A table in which no block is live and no age has been seen. -/
def empty (g : Geometry) : SegmentTable :=
  ⟨Array.replicate g.segments (Segment.empty g.segmentBlocks), 0, 0xFFFF_FFFF_FFFF_FFFF, 0⟩

/-- The record of a segment. -/
def get (t : SegmentTable) (seg : Nat) : Guarded Segment := Guarded.fetch t.records seg

/-- Replaces the record of a segment that the table has. -/
def put (t : SegmentTable) (seg : Nat) (s : Segment) : SegmentTable :=
  { t with records := t.records.setIfInBounds seg s }

/-- Changes the record of a segment. -/
def update (t : SegmentTable) (seg : Nat) (f : Segment → Segment) : Guarded SegmentTable := do
  let s ← t.get seg
  return t.put seg (f s)

/-- The number of live blocks in each of a list of segments, added up. -/
def liveIn (t : SegmentTable) : List Nat → Guarded Nat
  | [] => .ok 0
  | seg :: segs => do
    let s ← t.get seg
    let rest ← t.liveIn segs
    return s.live + rest

/-- The number of live blocks in the section of a segment. -/
def sectionLive (t : SegmentTable) (g : Geometry) (seg : Nat) : Guarded Nat :=
  if g.segmentsPerSection = 1 then do
    let s ← t.get seg
    return s.live
  else
    t.liveIn (g.sectionSegments (g.sectionOf seg))

/-- The number of live blocks in a segment, or in its whole section. -/
def liveBlocks (t : SegmentTable) (g : Geometry) (seg : Nat) (whole : Bool) : Guarded Nat :=
  if whole then
    t.sectionLive g seg
  else do
    let s ← t.get seg
    return s.live

/-- Widens the age bounds to include an age. -/
def observe (t : SegmentTable) (age : Nat) : SegmentTable :=
  { t with oldest := min t.oldest age, newest := max t.newest age }

/-- Makes a block live, telling whether it was dead before. -/
def fill (t : SegmentTable) (seg off now : Nat) : Guarded (Bool × SegmentTable) := do
  let s ← t.get seg
  let (changed, s) ← s.fill off now
  if changed then
    return (true, { t.put seg s with live := t.live + 1, newest := max t.newest now })
  else
    return (false, t)

/-- Makes a block dead, telling whether it was live before. -/
def drop (t : SegmentTable) (seg off : Nat) : Guarded (Bool × SegmentTable) := do
  let s ← t.get seg
  let (changed, s) ← s.drop off
  if changed then
    let live ← Guarded.minus t.live 1
    return (true, { t.put seg s with live })
  else
    return (false, t)

/-- Takes note of the live blocks of every segment at a checkpoint. -/
def save (t : SegmentTable) : SegmentTable := { t with records := t.records.map Segment.save }

end SegmentTable

end Reclaim
