import Reclaim.Migration.Walk

/-!
# Collecting a section

A pass moves the live blocks out of the segments of one section, in order. Segments without a live
block are left out. The first segment that fails ends the pass; what has been moved stays moved.
-/

namespace Reclaim.Backend

variable {σ : Type}

/-- Moves the live blocks of a segment, as nodes or as data by the log the segment belongs to. The
summary should be of the same kind; an assertion of that is left out. -/
def collectSegment (b : Backend σ) (trigger : Trigger) (seg : Nat) : Act σ (Outcome Unit) := do
  match ← b.summary seg with
  | .error status => return .error status
  | .ok sum =>
    Act.count Tally.countScanned
    let segment ← Act.askArea (·.table.get seg)
    if segment.log.any Log.isNode then
      b.collectNodes sum seg trigger
    else
      b.collectData sum seg trigger

/-- Moves the live blocks of a list of segments, up to the first that fails. -/
def collectSegments (b : Backend σ) (trigger : Trigger) : List Nat → Act σ (Outcome Unit)
  | [] => return .ok ()
  | seg :: segs => do
    let live ← Act.askArea (·.liveBlocks seg false)
    if live = 0 then
      b.collectSegments trigger segs
    else
      match ← b.collectSegment trigger seg with
      | .error status => return .error status
      | .ok () => b.collectSegments trigger segs

/-- Collects the section that begins at a segment, which must be the first of a section of the
area. The pass is counted; the library reads no clock, so its length is counted as nothing. -/
def collectSection (b : Backend σ) (start : Nat) (trigger : Trigger) : Act σ (Outcome Unit) := do
  let g ← Act.readArea (·.geometry)
  if g.segments ≤ start ∨ start % g.segmentsPerSection ≠ 0 then
    return .error .invalidArgument
  else
    let result ← b.collectSegments trigger (List.range' start g.segmentsPerSection)
    Act.count (·.countPass result.isOk 0)
    return result

end Reclaim.Backend
