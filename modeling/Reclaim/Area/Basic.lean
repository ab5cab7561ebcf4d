import Reclaim.Area.Table
import Reclaim.Area.FreeMap
import Reclaim.Area.DirtyLists

/-!
# The main area

`Area` gathers the books of the main area: the segment table, the dirty lists, the free maps, the
write position of each log, the cursors of the victim search, and the section that foreground
collection has claimed. `Area.create` starts one with every segment free except six open ones, one
for each log, in the first six sections.
-/

namespace Reclaim

/-- The parameters of an area. -/
structure Layout where
  /-- The binary logarithm of the blocks in a segment. -/
  segmentBits : Nat := 9
  /-- The segments in a section. -/
  segmentsPerSection : Nat := 1
  /-- The segments in the area. -/
  segments : Nat := 256
  /-- The first block of the area. -/
  mainStart : Nat := 512
  /-- The sections kept in reserve for collection. -/
  reserved : Nat := 2
  /-- The most candidates that one victim search looks at. -/
  searchLimit : Nat := 4096

namespace Layout

/-- Sets the limit of the victim search; it is never below one. -/
def withSearchLimit (l : Layout) (limit : Nat) : Layout := { l with searchLimit := max limit 1 }

/-- The geometry of the layout, if it is acceptable. -/
def geometry (l : Layout) : Outcome Geometry :=
  Geometry.make l.mainStart l.segmentBits l.segmentsPerSection l.segments l.reserved

end Layout

/-- The write position of a log: the open segment and the offset of the next block in it. -/
structure Head where
  /-- The open segment. -/
  segment : Nat
  /-- The offset of the next block. -/
  next : Nat
deriving DecidableEq

/-- Who asked for collection. -/
inductive Trigger where
  /-- An allocation that is short of space; live blocks are moved at once. -/
  | foreground
  /-- The background worker; live blocks are only marked to be moved. -/
  | background
deriving DecidableEq

/-- The name under which a trigger is reported. -/
def Trigger.name : Trigger → String
  | .foreground => "foreground"
  | .background => "background"

/-- How candidates are ranked by a victim search. -/
inductive Ranking where
  /-- Fewest live blocks first. -/
  | greedy
  /-- Fewest live blocks first, weighted by age. -/
  | costBenefit
deriving DecidableEq

/-- The number of a ranking. -/
def Ranking.number : Ranking → Nat
  | .greedy => 0
  | .costBenefit => 1

/-- Where the victim search of each ranking resumes. -/
structure Cursors where
  /-- The cursor of the greedy search. -/
  greedy : Nat
  /-- The cursor of the cost-benefit search. -/
  costBenefit : Nat
deriving DecidableEq

namespace Cursors

/-- The cursor of a ranking. -/
def get (c : Cursors) : Ranking → Nat
  | .greedy => c.greedy
  | .costBenefit => c.costBenefit

/-- Moves the cursor of a ranking. -/
def set (c : Cursors) (r : Ranking) (seg : Nat) : Cursors :=
  match r with
  | .greedy => { c with greedy := seg }
  | .costBenefit => { c with costBenefit := seg }

end Cursors

/-- The books of the main area. -/
structure Area where
  /-- The layout of the area. -/
  geometry : Geometry
  /-- The most candidates that one victim search looks at. -/
  searchLimit : Nat
  /-- The records of the segments. -/
  table : SegmentTable
  /-- The dirty and prefree segments and the staged sections. -/
  dirty : DirtyLists
  /-- Where the victim searches resume. -/
  cursors : Cursors
  /-- The section under foreground collection. -/
  claimed : Option Nat
  /-- The free segments and sections. -/
  free : FreeMap
  /-- The write positions of the logs. -/
  heads : PerLog Head
  /-- Whether foreground collection is switched off. -/
  foregroundOff : Bool

namespace Area

/-- Whether a segment is the open segment of a log. -/
def isOpen (a : Area) (seg : Nat) : Bool := a.heads.toList.any fun h => h.segment = seg

/-- Whether a log is writing into a section. -/
def isOpenSection (a : Area) (sec : Nat) : Bool :=
  a.heads.toList.any fun h => a.geometry.sectionOf h.segment = sec

/-- Whether a section is being written or collected in the foreground. -/
def isBusySection (a : Area) (sec : Nat) : Bool := a.isOpenSection sec || a.claimed = some sec

/-- Opens a segment for a log at its first block. -/
def openSegment (a : Area) (log : Log) (seg : Nat) : Guarded Area := do
  let free ← a.free.take a.geometry seg
  let table ← a.table.update seg fun s => { s with log := some log }
  return { a with free, table, heads := a.heads.set log ⟨seg, 0⟩ }

/-- Opens a segment for each of a list of logs, each in the first free section from a hint on; the
hint of a log is the section after the one of the log before it. -/
def openLogs (a : Area) : List Log → Nat → Guarded (Outcome Area)
  | [], _ => return .ok a
  | log :: logs, hint =>
    match a.free.find? a.geometry hint with
    | none => return .error .noSpace
    | some sec => do
      let a ← a.openSegment log (a.geometry.firstSegment sec)
      a.openLogs logs (sec + 1)

/-- An area with one open segment for each log and nothing else in use. -/
def create (l : Layout) : Guarded (Outcome Area) :=
  match l.geometry with
  | .error status => return .error status
  | .ok g =>
    let a : Area :=
      { geometry := g
        searchLimit := max l.searchLimit 1
        table := SegmentTable.empty g
        dirty := DirtyLists.empty g.segments g.sections
        cursors := ⟨0, 0⟩
        claimed := none
        free := FreeMap.empty g
        heads := PerLog.const ⟨0, 0⟩
        foregroundOff := false }
    a.openLogs Log.all 0

end Area

end Reclaim
