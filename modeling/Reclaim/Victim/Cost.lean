import Reclaim.Victim.Policy

/-!
# The cost of a victim

A lower cost is better. The greedy cost is the number of blocks that would have to be moved. The
cost-benefit cost also rewards age: with `u` the percentage of live blocks in the section and `age`
between 0 and 100, the benefit is `100 (100 - u) age / (100 + u)`, and the cost is the largest
32-bit number less the benefit. Age is scaled between the bounds of the table, which are widened
first when the section falls outside them, so that a clock that has jumped sets a new scale. For
reuse of slots the cost is the live count of the segment at the last checkpoint.
-/

namespace Reclaim

/-- The largest cost of a policy; a candidate of this cost is never chosen. -/
def Policy.maxCost (p : Policy) (g : Geometry) : Guarded Nat :=
  match p.reuse, p.ranking with
  | .slots, _ => return g.segmentBlocks
  | .wholeSection, .greedy => Guarded.fit32 (2 * g.segmentBlocks * p.unit)
  | .wholeSection, .costBenefit => return 0xFFFF_FFFF

namespace SegmentTable

/-- The ages of a list of segments, added up. -/
def ageSum (t : SegmentTable) : List Nat → Guarded Nat
  | [] => .ok 0
  | seg :: segs => do
    let s ← t.get seg
    let rest ← t.ageSum segs
    Guarded.fit64 (s.mtime + rest)

/-- The mean age of the segments in the section of a segment. -/
def sectionAge (t : SegmentTable) (g : Geometry) (seg : Nat) : Guarded Nat := do
  let sum ← t.ageSum (g.sectionSegments (g.sectionOf seg))
  return sum / g.segmentsPerSection

/-- An age on the scale from 100 at the older bound of the table to 0 at the newer one. -/
def scaledAge (t : SegmentTable) (age : Nat) : Guarded Nat :=
  if t.newest = t.oldest then
    return 0
  else do
    let above ← Guarded.minus age t.oldest
    let scaled ← Guarded.fit64 (100 * above)
    let range ← Guarded.minus t.newest t.oldest
    Guarded.minus 100 (scaled / range)

/-- The cost-benefit cost of the section of a segment, with the age bounds widened to it. -/
def costBenefit (t : SegmentTable) (g : Geometry) (seg : Nat) :
    Guarded (Nat × SegmentTable) := do
  let age ← t.sectionAge g seg
  let live ← t.sectionLive g seg
  let used := live * 100 / g.sectionBlocks
  let t := t.observe age
  let scaled ← t.scaledAge age
  let spare ← Guarded.minus 100 used
  let benefit ← Guarded.fit32 (100 * spare * scaled / (100 + used))
  return (0xFFFF_FFFF - benefit, t)

/-- The cost of a segment under a policy. -/
def cost (t : SegmentTable) (g : Geometry) (seg : Nat) (p : Policy) :
    Guarded (Nat × SegmentTable) :=
  match p.reuse, p.ranking with
  | .slots, _ => do
    let s ← t.get seg
    return (s.saved, t)
  | .wholeSection, .greedy => do
    let live ← t.liveBlocks g seg (1 < p.unit)
    return (live, t)
  | .wholeSection, .costBenefit => t.costBenefit g seg

end SegmentTable

end Reclaim
