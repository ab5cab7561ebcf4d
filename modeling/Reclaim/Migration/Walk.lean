import Reclaim.Area.Space
import Reclaim.Migration.World

/-!
# Moving the live blocks of a segment

The summary of a segment is walked entry by entry. Dead blocks are passed over; the claim on a live
block is checked against the filesystem, and a claim that no longer holds is counted as stale. A
block whose owner is found has its page marked dirty, which moves it at the next regular write. In
the foreground the page is given its new block at once and joins a batch that goes to the writer
when the walk ends, however it ends. In the background the walk gives way as soon as free sections
are short.

`walk` is common to both kinds of segment; `visitNode` and `visitData` say what is done with one
live block.
-/

namespace Reclaim

variable {σ : Type}

/-- What became of a live block. -/
inductive Visit where
  /-- There is nothing to hand to the writer. -/
  | passed
  /-- The page has its new block and belongs to the batch. -/
  | placed (page : Page)
  /-- The page could not be given a new block; the walk ends. -/
  | failed (status : Status)

/-- The owner of a data block. -/
structure Owner where
  /-- The inode that the block belongs to. -/
  inode : Inode
  /-- The file index of the block. -/
  index : Nat
  /-- The node that points at the block. -/
  node : NodeInfo

namespace Backend

/-- Hands a batch to the writer and counts it; an empty batch is not handed over. -/
def flush (b : Backend σ) (batch : List Page) : Act σ Unit := do
  if batch.isEmpty then
    return ()
  else
    let accepted ← b.writeback batch
    Act.count (·.countWriteback accepted)

/-- Counts a stale entry and passes it over. -/
def passStale : Act σ Visit := do
  Act.count Tally.countStale
  return .passed

/-- Gives a marked page its new block in the foreground; in the background it is left to regular
writing. -/
def settle (place : Page → Act σ (Outcome Address)) (trigger : Trigger) (page : Page) :
    Act σ Visit := do
  match trigger with
  | .background => return .passed
  | .foreground =>
    match ← place page with
    | .error status => return .failed status
    | .ok _ =>
      let _ ← Act.mark page .writeback true
      return .placed page

/-- Moves a live node block: the node must exist and still live at the address. -/
def visitNode (b : Backend σ) (trigger : Trigger) (addr : Address) (entry : Summary) :
    Act σ Visit := do
  if ← b.nodeInRange entry.nid then
    match ← b.nodePage entry.nid with
    | .error _ => passStale
    | .ok node =>
      match ← b.nodeInfo entry.nid with
      | .error _ => passStale
      | .ok info =>
        if info.address = addr then
          let _ ← Act.mark node.page .dirty true
          Act.count Tally.countNode
          settle b.placeNode trigger node.page
        else
          passStale
  else
    passStale

/-- The node that points at the data block at an address, with the inode and what the address table
knows of the node, if the claim in the summary entry of the block still holds. A version stamp that
has moved on gives away a node number that was used again; the pointer in the slot decides. -/
def claimant? (b : Backend σ) (entry : Summary) (addr : Address) :
    Act σ (Option (Inode × NodePage × NodeInfo)) := do
  if ← b.nodeInRange entry.nid then
    match ← b.nodePage entry.nid with
    | .error _ => return none
    | .ok node =>
      match ← b.nodeInfo entry.nid with
      | .error _ => return none
      | .ok info =>
        if entry.version = info.version then
          match ← b.inode info.ino with
          | .error _ => return none
          | .ok inode =>
            if node.pointer entry.slot = addr then
              return some (inode, node, info)
            else
              return none
        else
          return none
  else
    return none

/-- The owner of the data block at an address, if the claim in its summary entry still holds. -/
def owner? (b : Backend σ) (entry : Summary) (addr : Address) : Act σ (Option Owner) := do
  match ← b.claimant? entry addr with
  | none => return none
  | some (inode, node, info) =>
    let index ← Act.check (Guarded.fit64 (node.first + entry.slot))
    return some ⟨inode, index, info⟩

/-- Moves a live data block. The block of an orphan is released instead, and a page that cannot be
had leaves the block where it is. -/
def visitData (b : Backend σ) (trigger : Trigger) (addr : Address) (entry : Summary) :
    Act σ Visit := do
  match ← b.owner? entry addr with
  | none => passStale
  | some owner =>
    if ← b.isLinked owner.inode then
      match ← b.dataPage owner.inode owner.index with
      | .error _ => return .passed
      | .ok page =>
        let _ ← Act.mark page .dirty true
        let _ ← Act.mark page .cold true
        Act.count Tally.countData
        settle (b.placeData owner.inode) trigger page
    else
      let stop ← Act.check (Guarded.fit64 (owner.index + 1))
      match ← b.punch owner.inode owner.index stop true with
      | .error _ => return .passed
      | .ok () =>
        Act.count Tally.countOrphan
        return .passed

/-- Whether a walk gives way to allocation. -/
def yields (trigger : Trigger) : Act σ Bool :=
  Act.readArea fun a => trigger = .background && a.isShort 0 0

/-- Visits the live blocks of a segment from an offset on, given the entries from there and the
batch so far. -/
def walk (b : Backend σ) (visit : Address → Summary → Act σ Visit) (trigger : Trigger)
    (seg : Nat) (start : Address) : List Summary → Nat → List Page → Act σ (Outcome Unit)
  | [], _, batch => do
    b.flush batch
    return .ok ()
  | entry :: entries, off, batch => do
    if ← yields trigger then
      b.flush batch
      return .error .badState
    else if ← Act.askArea (·.isLive seg off) then
      match ← visit (start + off) entry with
      | .passed => b.walk visit trigger seg start entries (off + 1) batch
      | .placed page => b.walk visit trigger seg start entries (off + 1) (batch ++ [page])
      | .failed status =>
        b.flush batch
        return .error status
    else
      b.walk visit trigger seg start entries (off + 1) batch

/-- Moves the live blocks of a node segment. -/
def collectNodes (b : Backend σ) (sum : SummaryBlock) (seg : Nat) (trigger : Trigger) :
    Act σ (Outcome Unit) := do
  let start ← Act.askArea (·.geometry.checkedStart seg)
  b.walk (b.visitNode trigger) trigger seg start sum.entries.toList 0 []

/-- Moves the live blocks of a data segment. In the foreground the segment must be empty
afterwards. -/
def collectData (b : Backend σ) (sum : SummaryBlock) (seg : Nat) (trigger : Trigger) :
    Act σ (Outcome Unit) := do
  let start ← Act.askArea (·.geometry.checkedStart seg)
  match ← b.walk (b.visitData trigger) trigger seg start sum.entries.toList 0 [] with
  | .error status => return .error status
  | .ok () =>
    match trigger with
    | .background => return .ok ()
    | .foreground =>
      let live ← Act.askArea (·.liveBlocks seg false)
      if live = 0 then return .ok () else return .error .badState

end Backend

end Reclaim
