import Reclaim.Area.Basic

/-!
# How much space is left

Two tests decide about collection. `isShort` compares the free sections with the reserve and with
what is about to be written: foreground collection is due when it holds. `isWorthCollecting`
compares the blocks that hold nothing live, and those that are free, with two percentages:
background collection pays off when much is dead and little is free.
-/

namespace Reclaim.Area

/-- Cuts a number down to the largest that 32 bits hold. -/
def saturate (n : Nat) : Nat := min n 0xFFFF_FFFF

/-- The sections that a number of blocks fills, the last one perhaps in part. -/
def sectionsFor (a : Area) (blocks : Nat) : Nat :=
  (blocks + a.geometry.sectionBlocks - 1) / a.geometry.sectionBlocks

/-- Whether the free sections, with `freed` more about to be free, are down to the reserve once
`needed` blocks have been written. -/
def isShort (a : Area) (freed needed : Nat) : Bool :=
  saturate (a.free.freeSections + freed) ≤ saturate (a.geometry.reserved + a.sectionsFor needed)

/-- Whether more than `invalidPct` percent of the area holds nothing live while the free blocks
outside the reserve are fewer than `freePct` percent of what holds nothing live. The reserve is
counted in segments, in a word of 32 bits, and the percentages are taken in words of 64. -/
def isWorthCollecting (a : Area) (invalidPct freePct : Nat) : Guarded Bool := do
  let g := a.geometry
  let total := g.segments * g.segmentBlocks
  let invalid := total - a.table.live
  let reservedSegments ← Guarded.fit32 (g.reserved * g.segmentsPerSection)
  let freeBlocks := (a.free.freeSegments - reservedSegments) * g.segmentBlocks
  let dead ← Guarded.fit64 (total * invalidPct)
  let spare ← Guarded.fit64 (invalid * freePct)
  return dead / 100 < invalid && freeBlocks < spare / 100

/-- The live blocks of a segment, or of its whole section. -/
def liveBlocks (a : Area) (seg : Nat) (whole : Bool) : Guarded Nat :=
  a.table.liveBlocks a.geometry seg whole

/-- Whether the block at an offset of a segment is live. -/
def isLive (a : Area) (seg off : Nat) : Guarded Bool := do
  let s ← a.table.get seg
  return s.isLive off

end Reclaim.Area
