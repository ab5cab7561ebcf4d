import Reclaim.Area.Basic
import Reclaim.Migration.Page

/-!
# One-line descriptions

Addresses, geometries, bitmaps, pages and whole areas can be described on one line for diagnostics.
A structure is written as its name and, in braces, its fields with their values.
-/

namespace Reclaim

namespace Describe

/-- A structure with a name and fields, each a name and the text of its value. -/
def fields (name : String) (values : List (String × String)) : String :=
  name ++ " \x7b " ++ ", ".intercalate (values.map fun v => v.1 ++ ": " ++ v.2) ++ " \x7d"

/-- A number. -/
def number (n : Nat) : String := toString n

/-- A truth value. -/
def truth (b : Bool) : String := if b then "true" else "false"

end Describe

open Describe

/-- Describes an address; the two reserved ones go by their names. -/
def Address.describe (a : Address) : String :=
  let name := if a = null then "NULL" else if a = fresh then "NEW" else number a
  "BlockAddr(" ++ name ++ ")"

/-- Describes a geometry. -/
def Geometry.describe (g : Geometry) : String :=
  fields "SegmentGeometry"
    [("main_blkaddr", number g.mainStart), ("log_blocks_per_seg", number g.segmentBits),
      ("segs_per_sec", number g.segmentsPerSection), ("total_segs", number g.segments),
      ("reserved_secs", number g.reserved)]

/-- Describes a bitmap by its size and the number of its members. -/
def Bitmap.describe (b : Bitmap) : String :=
  fields "Bitmap" [("len", number b.size), ("ones", number b.card)]

/-- Describes a page key. -/
def PageKey.describe : PageKey → String
  | .node nid => "Node(" ++ number nid ++ ")"
  | .data ino index => fields "Data" [("ino", number ino), ("index", number index)]

/-- Describes a page with its flags. -/
def Page.describe (p : Page) (f : PageFlags) : String :=
  fields "Page"
    [("key", p.key.describe), ("dirty", truth f.dirty), ("writeback", truth f.writeback),
      ("cold", truth f.cold)]

/-- Describes an area by its geometry and its counts. -/
def Area.describe (a : Area) : String :=
  fields "SegmentManager"
    [("geometry", a.geometry.describe), ("free_sections", number a.free.freeSections),
      ("prefree_segments", number a.dirty.prefree.count),
      ("dirty_segments", number a.dirty.dirty.count)]

end Reclaim
