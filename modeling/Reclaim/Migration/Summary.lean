import Reclaim.Log

/-!
# Segment summaries

The summary of a segment records, for each block, which node claimed the block when it was
written: the node itself for a node block, and the node and the slot in it for a data block.
Summaries are hints. They may be out of date, so collection checks every entry against the
current state of the filesystem before it moves anything.
-/

namespace Reclaim

/-- What the summary of a segment says of one block. -/
structure Summary where
  /-- The node that claimed the block. -/
  nid : Nat := 0
  /-- The version of the node at that time. -/
  version : Nat := 0
  /-- The slot of the node that points at the block. -/
  slot : Nat := 0
deriving DecidableEq

/-- The summary of a segment. -/
structure SummaryBlock where
  /-- What the blocks of the segment hold. -/
  kind : BlockKind
  /-- The entries by block offset. -/
  entries : Array Summary
deriving DecidableEq

namespace SummaryBlock

/-- A summary of empty entries. -/
def blank (kind : BlockKind) (blocks : Nat) : SummaryBlock := ⟨kind, Array.replicate blocks {}⟩

/-- The entry of a block offset. -/
def entry? (s : SummaryBlock) (off : Nat) : Option Summary := s.entries[off]?

/-- Records the claim on a block; an offset past the end is passed over. -/
def record (s : SummaryBlock) (off : Nat) (sum : Summary) : SummaryBlock :=
  { s with entries := s.entries.setIfInBounds off sum }

end SummaryBlock

end Reclaim
