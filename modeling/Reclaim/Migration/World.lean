import Reclaim.Area.Basic
import Reclaim.Migration.Page
import Reclaim.Migration.Summary
import Reclaim.Migration.Phase
import Reclaim.Migration.Tally

/-!
# The filesystem around collection

Collection owns neither block input and output, nor the node address table, nor the inodes, nor
the writer of pages and checkpoints. It reaches them through a `Backend`, a record of operations on
the `World`: the main area, the state of collection, the page cache, and whatever the filesystem
keeps for itself. An operation of the filesystem sees and may change all of it. It may allocate
and invalidate blocks, look at the phase of the run that called it, and even ask for another run.
-/

namespace Reclaim

/-- The state of collection. -/
structure Collector where
  /-- The phase of the run in progress. -/
  progress : Progress
  /-- The counters. -/
  tally : Tally
  /-- Whether a run holds the collection lock. -/
  locked : Bool

namespace Collector

/-- Collection at rest, before any run. -/
def initial : Collector := ⟨Progress.initial, {}, false⟩

end Collector

/-- Everything that collection and the filesystem share; `σ` is what the filesystem keeps for
itself. -/
structure World (σ : Type) where
  /-- The main area. -/
  area : Area
  /-- The state of collection. -/
  collector : Collector
  /-- The flags of the cached pages. -/
  pages : PageCache
  /-- The filesystem's own state. -/
  host : σ

/-- An operation on the world. -/
abbrev Act (σ : Type) := StateT (World σ) Guarded

namespace Act

variable {σ α : Type}

/-- What a function of the main area gives. -/
def readArea (f : Area → α) : Act σ α := fun w => .ok (f w.area, w)

/-- What a checked function of the main area gives. -/
def askArea (f : Area → Guarded α) : Act σ α := fun w => do
  let x ← f w.area
  return (x, w)

/-- A step that looks at nothing, and gives a value or stops. -/
def check (x : Guarded α) : Act σ α := askArea fun _ => x

/-- Runs an operation of the main area. -/
def onArea (f : Area → Guarded (α × Area)) : Act σ α := fun w => do
  let (x, area) ← f w.area
  return (x, { w with area })

/-- Sets or clears the section under foreground collection. -/
def claim (sec : Option Nat) : Act σ Unit := fun w =>
  .ok ((), { w with area := { w.area with claimed := sec } })

/-- Moves the phase of the run, telling whether the move was allowed. -/
def progress (f : Progress → Bool × Progress) : Act σ Bool := fun w =>
  let (moved, progress) := f w.collector.progress
  .ok (moved, { w with collector := { w.collector with progress } })

/-- Counts an event. -/
def count (f : Tally → Tally) : Act σ Unit := fun w =>
  .ok ((), { w with collector := { w.collector with tally := f w.collector.tally } })

/-- Takes or gives back the collection lock. -/
def lock (held : Bool) : Act σ Unit := fun w =>
  .ok ((), { w with collector := { w.collector with locked := held } })

/-- Raises or lowers a flag of a page, telling whether it was raised before. -/
def mark (p : Page) (flag : PageFlag) (value : Bool) : Act σ Bool := fun w =>
  let (before, pages) := w.pages.mark p flag value
  .ok (before, { w with pages })

/-- Stops without an answer. -/
def stop (t : Trap) : Act σ α := fun _ => .error t

end Act

/-- An inode as the filesystem hands it out. -/
structure Inode where
  /-- The number of the inode. -/
  ino : Nat
deriving DecidableEq

/-- The operations of the filesystem that collection needs. -/
structure Backend (σ : Type) where
  /-- Reads the summary of a segment. -/
  summary : Nat → Act σ (Outcome SummaryBlock)
  /-- Whether a number lies in the space of node numbers. -/
  nodeInRange : Nat → Act σ Bool
  /-- Loads a node. -/
  nodePage : Nat → Act σ (Outcome NodePage)
  /-- Looks a node up in the node address table. -/
  nodeInfo : Nat → Act σ (Outcome NodeInfo)
  /-- Gives a dirty node page a new block, points the address table at it and drops the old one. -/
  placeNode : Page → Act σ (Outcome Address)
  /-- Finds an inode, loading it if need be. -/
  inode : Nat → Act σ (Outcome Inode)
  /-- Whether the inode is still linked; an orphan waits to be deleted. -/
  isLinked : Inode → Act σ Bool
  /-- Finds or reads the page of a file at an index. -/
  dataPage : Inode → Nat → Act σ (Outcome Page)
  /-- Gives a dirty data page a new block, points the slot of its node at it and drops the old
  one. -/
  placeData : Inode → Page → Act σ (Outcome Address)
  /-- Releases the blocks of a file from one index up to another, and its cached pages if asked. -/
  punch : Inode → Nat → Nat → Bool → Act σ (Outcome Unit)
  /-- Hands a batch of dirty pages under writeback to the writer, which tells how many it takes. -/
  writeback : List Page → Act σ Nat
  /-- Whether a checkpoint has failed, so that the filesystem is read-only. -/
  checkpointFailed : Act σ Bool
  /-- Writes a checkpoint. -/
  writeCheckpoint : Act σ (Outcome Unit)

end Reclaim
