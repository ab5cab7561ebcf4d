import Reclaim.Area.Basic

/-!
# Search policies

A victim search scans one of the dirty lists in steps of a unit, from where the last search of the
same ranking stopped, and looks at a bounded number of candidates. How the space is to be reused
decides the rest: to reclaim whole sections every dirty segment is a candidate and the unit is a
section; to reuse single slots in place only the segments of one log are, one by one.
-/

namespace Reclaim

/-- How the space of a victim is to be reused. -/
inductive Reuse where
  /-- A whole section is emptied and then written from its start. -/
  | wholeSection
  /-- Dead slots of a single segment are overwritten in place. -/
  | slots
deriving DecidableEq

/-- The parameters of one victim search, with the best candidate so far. -/
structure Policy where
  /-- How the space of the victim is to be reused. -/
  reuse : Reuse
  /-- How candidates are ranked. -/
  ranking : Ranking
  /-- The list that is scanned. -/
  scanned : DirtyClass
  /-- The number of candidates to look at. -/
  budget : Nat
  /-- The segment to start from. -/
  offset : Nat
  /-- The step between candidates. -/
  unit : Nat
  /-- The best candidate so far. -/
  best : Option Nat
  /-- The cost of the best candidate so far. -/
  bestCost : Nat
deriving DecidableEq

namespace Policy

/-- A policy without a candidate yet. -/
def start (reuse : Reuse) (ranking : Ranking) (scanned : DirtyClass)
    (budget offset unit : Nat) : Policy :=
  { reuse, ranking, scanned, budget, offset, unit, best := none, bestCost := 0xFFFF_FFFF }

end Policy

/-- The start of the unit behind the one that a cursor lies in. -/
def roundUp (unit cursor : Nat) : Nat := cursor - cursor % unit + unit

/-- A cursor rounded up to a multiple of the unit, going round an area of `segments` segments. A
search that stopped inside a section has scored the section, so the next one starts behind it. -/
def roundCursor (unit segments cursor : Nat) : Nat :=
  if cursor % unit = 0 then cursor else roundUp unit cursor % segments

/-- The policy of a search for a trigger among the segments of a log, or of any log. -/
def Area.policy (a : Area) (trigger : Trigger) (log : Option Log) (reuse : Reuse) : Policy :=
  let ranking :=
    match reuse, trigger with
    | .wholeSection, .background => Ranking.costBenefit
    | _, _ => Ranking.greedy
  let scanned :=
    match reuse with
    | .slots => DirtyClass.ofLog? log
    | .wholeSection => DirtyClass.dirty
  let unit :=
    match reuse with
    | .slots => 1
    | .wholeSection => a.geometry.segmentsPerSection
  let budget := min (a.dirty.count scanned) a.searchLimit
  let offset := roundCursor unit a.geometry.segments (a.cursors.get ranking)
  Policy.start reuse ranking scanned budget offset unit

/-- The policy of a search, whose cursor has 32 bits also when it has to be rounded up. -/
def Area.checkedPolicy (a : Area) (trigger : Trigger) (log : Option Log) (reuse : Reuse) :
    Guarded Policy := do
  let p := a.policy trigger log reuse
  let cursor := a.cursors.get p.ranking
  if cursor % p.unit = 0 then
    return p
  else
    let _ ← Guarded.fit32 (roundUp p.unit cursor)
    return p

end Reclaim
