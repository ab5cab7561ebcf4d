import Reclaim.Geometry
import Reclaim.Bitmap

/-!
# Free segments and sections

Two maps mark what is in use, one over segments and one over sections; a section is free only when
all of its segments are. The numbers of free segments and free sections are kept beside the maps.
-/

namespace Reclaim

/-- Which segments and sections are in use. -/
structure FreeMap where
  /-- The segments in use. -/
  usedSegments : Bitmap
  /-- The sections with a segment in use. -/
  usedSections : Bitmap
  /-- The number of free segments. -/
  freeSegments : Nat
  /-- The number of free sections. -/
  freeSections : Nat
deriving DecidableEq

namespace FreeMap

/-- Everything is free. -/
def empty (g : Geometry) : FreeMap :=
  ⟨Bitmap.empty g.segments, Bitmap.empty g.sections, g.segments, g.sections⟩

/-- Puts a segment into use, and its section with it. -/
def take (f : FreeMap) (g : Geometry) (seg : Nat) : Guarded FreeMap := do
  let (used, usedSegments) ← f.usedSegments.insert seg
  let freeSegments ← if used then pure f.freeSegments else Guarded.minus f.freeSegments 1
  let (usedSection, usedSections) ← f.usedSections.insert (g.sectionOf seg)
  let freeSections ← if usedSection then pure f.freeSections else Guarded.minus f.freeSections 1
  return ⟨usedSegments, usedSections, freeSegments, freeSections⟩

/-- Frees a segment, telling whether it was in use; its section is freed with the last of its
segments. -/
def release (f : FreeMap) (g : Geometry) (seg : Nat) : Guarded (Bool × FreeMap) := do
  let (used, usedSegments) ← f.usedSegments.erase seg
  if used then
    let sec := g.sectionOf seg
    let start := g.firstSegment sec
    let stop := start + g.segmentsPerSection
    let f := { f with usedSegments, freeSegments := f.freeSegments + 1 }
    if usedSegments.next start stop < stop then
      return (true, f)
    else
      let (usedSection, usedSections) ← f.usedSections.erase sec
      let freeSections := if usedSection then f.freeSections + 1 else f.freeSections
      return (true, { f with usedSections, freeSections })
  else
    return (false, f)

/-- The first free section among a number of positions from one on; positions go round an area of
`sections` sections. -/
def findFrom? (f : FreeMap) (sections : Nat) : Nat → Nat → Option Nat
  | 0, _ => none
  | left + 1, i =>
    if f.usedSections.contains (i % sections) then f.findFrom? sections left (i + 1)
    else some (i % sections)

/-- The first free section at or after a hint, going round the area once. -/
def find? (f : FreeMap) (g : Geometry) (hint : Nat) : Option Nat :=
  f.findFrom? g.sections g.sections hint

end FreeMap

end Reclaim
