import Reclaim.Bitmap
import Reclaim.Log

/-!
# Dirty segments

A segment is *dirty* when some but not all of its blocks are live, and *prefree* when none is and
it has not yet been released by a checkpoint. Dirty segments are listed together and, a second
time, under the log they belong to. Each list is a `Roster`: a map with the number of its members
beside it. `staged` marks the sections that background collection has chosen and foreground
collection may take over.
-/

namespace Reclaim

/-- A list that a segment can be on. -/
inductive DirtyClass where
  /-- The dirty segments of one log. -/
  | ofLog (log : Log)
  /-- All dirty segments. -/
  | dirty
  /-- The empty segments that wait for a checkpoint. -/
  | prefree
deriving DecidableEq

namespace DirtyClass

/-- The classes in the order of their numbers: the logs, all dirty segments, prefree segments. -/
def all : List DirtyClass := Log.all.map ofLog ++ [dirty, prefree]

/-- The name of a class. -/
def name : DirtyClass → String
  | ofLog log => "Dirty" ++ log.name
  | dirty => "Dirty"
  | prefree => "Pre"

/-- The list that holds the dirty segments of a log, or of any log. -/
def ofLog? : Option Log → DirtyClass
  | some log => ofLog log
  | none => dirty

end DirtyClass

/-- A set of segments with its size. -/
structure Roster where
  /-- The members. -/
  map : Bitmap
  /-- The number of members. -/
  count : Nat
deriving DecidableEq

namespace Roster

/-- A roster without members. -/
def empty (segments : Nat) : Roster := ⟨Bitmap.empty segments, 0⟩

/-- Adds a segment. -/
def add (r : Roster) (seg : Nat) : Guarded Roster := do
  let (present, map) ← r.map.insert seg
  return ⟨map, if present then r.count else r.count + 1⟩

/-- Removes a segment. -/
def remove (r : Roster) (seg : Nat) : Guarded Roster := do
  let (present, map) ← r.map.erase seg
  let count ← if present then Guarded.minus r.count 1 else pure r.count
  return ⟨map, count⟩

end Roster

/-- The dirty and prefree segments and the staged sections. -/
structure DirtyLists where
  /-- The dirty segments of each log. -/
  byLog : PerLog Roster
  /-- All dirty segments. -/
  dirty : Roster
  /-- The prefree segments. -/
  prefree : Roster
  /-- The sections staged by background collection. -/
  staged : Bitmap
deriving DecidableEq

namespace DirtyLists

/-- No segment is dirty and no section staged. -/
def empty (segments sections : Nat) : DirtyLists :=
  ⟨PerLog.const (Roster.empty segments), Roster.empty segments, Roster.empty segments,
    Bitmap.empty sections⟩

/-- The roster of a class. -/
def roster (d : DirtyLists) : DirtyClass → Roster
  | .ofLog log => d.byLog.get log
  | .dirty => d.dirty
  | .prefree => d.prefree

/-- Replaces the roster of a class. -/
def setRoster (d : DirtyLists) (c : DirtyClass) (r : Roster) : DirtyLists :=
  match c with
  | .ofLog log => { d with byLog := d.byLog.set log r }
  | .dirty => { d with dirty := r }
  | .prefree => { d with prefree := r }

/-- The number of segments of a class. -/
def count (d : DirtyLists) (c : DirtyClass) : Nat := (d.roster c).count

/-- Whether a segment is of a class. -/
def contains (d : DirtyLists) (c : DirtyClass) (seg : Nat) : Bool := (d.roster c).map.contains seg

/-- Adds a segment to one roster. -/
def add (d : DirtyLists) (c : DirtyClass) (seg : Nat) : Guarded DirtyLists := do
  let r ← (d.roster c).add seg
  return d.setRoster c r

/-- Removes a segment from one roster. -/
def remove (d : DirtyLists) (c : DirtyClass) (seg : Nat) : Guarded DirtyLists := do
  let r ← (d.roster c).remove seg
  return d.setRoster c r

/-- Stages a section, telling whether it was staged before. -/
def stage (d : DirtyLists) (sec : Nat) : Guarded (Bool × DirtyLists) := do
  let (present, staged) ← d.staged.insert sec
  return (present, { d with staged })

/-- Takes back the staging of a section, telling whether it was staged. -/
def unstage (d : DirtyLists) (sec : Nat) : Guarded (Bool × DirtyLists) := do
  let (present, staged) ← d.staged.erase sec
  return (present, { d with staged })

/-- Enters a segment under a class; a dirty segment is entered under its log too. -/
def enter (d : DirtyLists) (seg : Nat) (c : DirtyClass) (log : Option Log) :
    Guarded DirtyLists := do
  let d ← d.add c seg
  match c, log with
  | .dirty, some log => d.add (.ofLog log) seg
  | _, _ => return d

/-- Strikes a segment from a class; a dirty segment is struck from its log too, and its section is
no longer staged when `emptied` says that the section holds nothing any more. -/
def strike (d : DirtyLists) (seg : Nat) (c : DirtyClass) (log : Option Log)
    (emptied : Option Nat) : Guarded DirtyLists := do
  let d ← d.remove c seg
  if c = .dirty then
    let d ← match log with
      | some log => d.remove (.ofLog log) seg
      | none => pure d
    match emptied with
    | some sec => do
      let (_, d) ← d.unstage sec
      return d
    | none => return d
  else
    return d

end DirtyLists

end Reclaim
