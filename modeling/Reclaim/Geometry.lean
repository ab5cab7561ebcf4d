import Reclaim.Status
import Reclaim.Trap

/-!
# Block addresses and the layout of the main area

The main area is a flat run of blocks, cut into segments of `2 ^ segmentBits` blocks each, and the
segments into sections of `segmentsPerSection`. A block address is an absolute block number of 32
bits; segments and sections are counted from the start of the main area. `Geometry.make` accepts
exactly the layouts in which every block of the area has an address strictly between the two
reserved ones, so that a block address and a pair of a segment and an offset say the same thing.
-/

namespace Reclaim

/-- An absolute block number. -/
abbrev Address := Nat

namespace Address

/-- The address of a block that is not allocated. -/
def null : Address := 0

/-- The address of a block that is reserved but not yet written. -/
def fresh : Address := 0xFFFF_FFFF

/-- Whether the address names a written block. -/
def isAllocated (a : Address) : Bool := a ≠ null && a ≠ fresh

end Address

/-- The layout of the main area. -/
structure Geometry where
  /-- The first block of the area. -/
  mainStart : Nat
  /-- The binary logarithm of the blocks in a segment. -/
  segmentBits : Nat
  /-- The segments in a section. -/
  segmentsPerSection : Nat
  /-- The segments in the area. -/
  segments : Nat
  /-- The sections kept in reserve for collection itself. -/
  reserved : Nat
deriving DecidableEq

namespace Geometry

/-- The largest supported `segmentBits`. -/
def maxSegmentBits : Nat := 16

/-- Checks a layout: segments of 2 to `2 ^ 16` blocks, whole sections, an area that ends below the
last address, and a start above address 0. -/
def make (mainStart segmentBits segmentsPerSection segments reserved : Nat) : Outcome Geometry :=
  if segmentBits = 0 ∨ maxSegmentBits < segmentBits then
    .error .invalidArgument
  else if segmentsPerSection = 0 ∨ segments = 0 ∨ segments % segmentsPerSection ≠ 0 then
    .error .invalidArgument
  else if Address.fresh ≤ mainStart + segments * (1 <<< segmentBits) then
    .error .outOfRange
  else if mainStart = 0 then
    .error .invalidArgument
  else
    .ok ⟨mainStart, segmentBits, segmentsPerSection, segments, reserved⟩

/-- The blocks in a segment. -/
def segmentBlocks (g : Geometry) : Nat := 1 <<< g.segmentBits

/-- The blocks in a section. -/
def sectionBlocks (g : Geometry) : Nat := g.segmentBlocks * g.segmentsPerSection

/-- The sections in the area. -/
def sections (g : Geometry) : Nat := g.segments / g.segmentsPerSection

/-- The section that holds a segment. -/
def sectionOf (g : Geometry) (seg : Nat) : Nat := seg / g.segmentsPerSection

/-- The first segment of a section. -/
def firstSegment (g : Geometry) (sec : Nat) : Nat := sec * g.segmentsPerSection

/-- The segments of a section, in order. -/
def sectionSegments (g : Geometry) (sec : Nat) : List Nat :=
  List.range' (g.firstSegment sec) g.segmentsPerSection

/-- The first block of a segment. Block numbers have 32 bits, so the product loses higher bits. -/
def startBlock (g : Geometry) (seg : Nat) : Address :=
  g.mainStart + seg * g.segmentBlocks % 0x1_0000_0000

/-- The first block of a segment that need not lie in the area; its number has 32 bits. -/
def checkedStart (g : Geometry) (seg : Nat) : Guarded Address := Guarded.fit32 (g.startBlock seg)

/-- The segment that holds a block, if the block lies in the main area. -/
def segmentOf? (g : Geometry) (a : Address) : Option Nat :=
  if a.isAllocated && g.mainStart ≤ a then
    let seg := (a - g.mainStart) / g.segmentBlocks
    if seg < g.segments then some seg else none
  else
    none

/-- The offset of a block inside its segment. -/
def offsetOf (g : Geometry) (a : Address) : Nat := (a - g.mainStart) % g.segmentBlocks

end Geometry

end Reclaim
