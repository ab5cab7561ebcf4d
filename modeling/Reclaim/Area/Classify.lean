import Reclaim.Area.Basic

/-!
# Keeping segments on the right lists

Whenever the live count of a segment changes, the segment is classified anew: an empty segment
goes on the prefree list, a partly live one on the dirty list, a full one on none. An open segment
is on no list; it is classified when its log leaves it. Blocks die by `invalidate`.
-/

namespace Reclaim.Area

/-- Enters a segment under the class of its live count, unless it is open. A section that has
emptied is no longer staged. -/
def classify (a : Area) (seg : Nat) : Guarded Area := do
  if a.isOpen seg then
    return a
  else
    let s ← a.table.get seg
    let sectionLive ← a.table.sectionLive a.geometry seg
    let emptied := if sectionLive = 0 then some (a.geometry.sectionOf seg) else none
    let dirty ←
      if s.live = 0 then do
        let d ← a.dirty.enter seg .prefree s.log
        d.strike seg .dirty s.log emptied
      else if s.live < a.geometry.segmentBlocks then
        a.dirty.enter seg .dirty s.log
      else
        a.dirty.strike seg .dirty s.log emptied
    return { a with dirty }

/-- Classifies a segment again, on request; no segment is named by `none`. -/
def reclassify (a : Area) : Option Nat → Guarded Area
  | none => return a
  | some seg => a.classify seg

/-- Drops the block at an address. Addresses that name no written block, and blocks that are dead
already, are passed over. -/
def invalidate (a : Area) (addr : Address) : Guarded (Outcome Unit × Area) := do
  if addr.isAllocated then
    match a.geometry.segmentOf? addr with
    | none => return (.error .outOfRange, a)
    | some seg =>
      let (changed, table) ← a.table.drop seg (a.geometry.offsetOf addr)
      if changed then
        let a ← { a with table }.classify seg
        return (.ok (), a)
      else
        return (.ok (), a)
  else
    return (.ok (), a)

/-- Drops the blocks at a list of addresses, up to the first that is refused. -/
def invalidateAll (a : Area) : List Address → Guarded (Outcome Unit × Area)
  | [] => return (.ok (), a)
  | addr :: addrs => do
    match ← a.invalidate addr with
    | (.error status, a) => return (.error status, a)
    | (.ok (), a) => a.invalidateAll addrs

/-- Files a segment under another log. -/
def setLog (a : Area) (seg : Nat) (log : Option Log) : Guarded Area := do
  let s ← a.table.get seg
  let dirty ←
    if a.dirty.contains .dirty seg then a.dirty.strike seg .dirty s.log none else pure a.dirty
  let table := a.table.put seg { s with log }
  { a with dirty, table }.classify seg

/-- Overrides the age of a segment. -/
def setMtime (a : Area) (seg mtime : Nat) : Guarded Area := do
  let table ← a.table.update seg fun s => { s with mtime }
  return { a with table }

/-- Overrides the age bounds. -/
def setAgeBounds (a : Area) (oldest newest : Nat) : Area :=
  { a with table := { a.table with oldest, newest } }

end Reclaim.Area
