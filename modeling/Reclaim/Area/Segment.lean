import Reclaim.Bitmap
import Reclaim.Log

/-!
# The record of one segment

A `Segment` knows which of its blocks are live, how many were live at the last checkpoint, which
log it was last opened for, and its age: the average write time of the blocks that are in it. The
average is kept as one number that each write pulls towards its own time, so it starts over when
the segment has emptied.
-/

namespace Reclaim

/-- The record of one segment. -/
structure Segment where
  /-- The offsets of the live blocks. -/
  map : Bitmap
  /-- The number of live blocks. -/
  live : Nat
  /-- The number of blocks that were live at the last checkpoint. -/
  saved : Nat
  /-- The average write time of the live blocks. -/
  mtime : Nat
  /-- The log the segment was last opened for, if it is known. -/
  log : Option Log
deriving DecidableEq

namespace Segment

/-- A segment of `blocks` blocks without a live one. -/
def empty (blocks : Nat) : Segment := ⟨Bitmap.empty blocks, 0, 0, 0, some Log.warmData⟩

/-- Whether the block at an offset is live. -/
def isLive (s : Segment) (off : Nat) : Bool := s.map.contains off

/-- Makes the block at an offset live, telling whether it was dead before. A block that was live
already changes nothing. -/
def fill (s : Segment) (off now : Nat) : Guarded (Bool × Segment) := do
  let (present, map) ← s.map.insert off
  if present then
    return (false, s)
  else
    let total ← Guarded.fit64 (s.mtime * s.live + now)
    return (true, { s with map, mtime := total / (s.live + 1), live := s.live + 1 })

/-- Makes the block at an offset dead, telling whether it was live before. -/
def drop (s : Segment) (off : Nat) : Guarded (Bool × Segment) := do
  let (present, map) ← s.map.erase off
  if present then
    let live ← Guarded.minus s.live 1
    return (true, { s with map, live })
  else
    return (false, s)

/-- Takes note of the live blocks at a checkpoint. -/
def save (s : Segment) : Segment := { s with saved := s.live }

end Segment

end Reclaim
