import Reclaim.Area.Basic

/-!
# Checkpoints

A checkpoint makes the current state of the area durable. Only then may the space of dead blocks
be used again, so a segment that has emptied stays in use until the next checkpoint, which notes
the live count of every segment and frees the prefree ones.
-/

namespace Reclaim.Area

/-- Takes a segment off the prefree list and frees it. -/
def releaseSegment (a : Area) (seg : Nat) : Guarded Area := do
  let s ← a.table.get seg
  let dirty ← a.dirty.strike seg .prefree s.log none
  let (_, free) ← a.free.release a.geometry seg
  return { a with dirty, free }

/-- Frees a list of prefree segments. -/
def releaseAll (a : Area) : List Nat → Guarded Area
  | [] => return a
  | seg :: segs => do
    let a ← a.releaseSegment seg
    a.releaseAll segs

/-- Takes note of every live count and frees the prefree segments, telling how many there were. -/
def checkpoint (a : Area) : Guarded (Nat × Area) := do
  let prefree := a.dirty.prefree.map.toList
  let a ← { a with table := a.table.save }.releaseAll prefree
  return (prefree.length, a)

end Reclaim.Area
