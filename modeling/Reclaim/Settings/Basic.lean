import Reclaim.Area.Basic
import Reclaim.Background.Pacing

/-!
# Settings

Settings override single fields of the layout of the area and of the pacing of background
collection. There are eleven fields in two tables; `Field` names them, and `Settings.get?` and
`Settings.set` read and write them. A table is present when the settings name it, even if none of
its fields is set.
-/

namespace Reclaim

/-- A field that settings can override. -/
inductive Field where
  /-- The binary logarithm of the blocks in a segment. -/
  | segmentBits
  /-- The segments in a section. -/
  | segmentsPerSection
  /-- The segments in the area. -/
  | segments
  /-- The first block of the area. -/
  | mainStart
  /-- The sections kept in reserve. -/
  | reserved
  /-- The limit of the victim search. -/
  | searchLimit
  /-- The shortest sleep in milliseconds. -/
  | minSleep
  /-- The longest sleep in milliseconds. -/
  | maxSleep
  /-- The sleep after a round without a victim, in milliseconds. -/
  | idleSleep
  /-- The percentage of the area that must hold nothing live. -/
  | invalidPct
  /-- The percentage that free space must stay below. -/
  | freePct
deriving DecidableEq

/-- A table of settings. -/
inductive SettingsTable where
  /-- The layout of the area. -/
  | area
  /-- The pacing of background collection. -/
  | background
deriving DecidableEq

namespace SettingsTable

/-- The name of a table. -/
def key : SettingsTable → String
  | .area => "segments"
  | .background => "background"

/-- The table with a name. -/
def ofKey? (key : String) : Option SettingsTable :=
  [SettingsTable.area, SettingsTable.background].find? fun s => s.key = key

end SettingsTable

namespace Field

/-- Every field. -/
def all : List Field :=
  [.segmentBits, .segmentsPerSection, .segments, .mainStart, .reserved, .searchLimit, .minSleep,
    .maxSleep, .idleSleep, .invalidPct, .freePct]

/-- The table of a field. -/
def table : Field → SettingsTable
  | .segmentBits | .segmentsPerSection | .segments | .mainStart | .reserved | .searchLimit => .area
  | .minSleep | .maxSleep | .idleSleep | .invalidPct | .freePct => .background

/-- The name of a field in its table. -/
def key : Field → String
  | .segmentBits => "log_blocks_per_seg"
  | .segmentsPerSection => "segs_per_sec"
  | .segments => "total_segs"
  | .mainStart => "main_blkaddr"
  | .reserved => "reserved_secs"
  | .searchLimit => "max_search_limit"
  | .minSleep => "min_sleep_ms"
  | .maxSleep => "max_sleep_ms"
  | .idleSleep => "no_gc_sleep_ms"
  | .invalidPct => "invalid_threshold_pct"
  | .freePct => "free_threshold_pct"

/-- The width of a field in bits. -/
def bits : Field → Nat
  | .minSleep | .maxSleep | .idleSleep => 64
  | _ => 32

/-- The fields of a table, in order. -/
def ofTable (t : SettingsTable) : List Field := all.filter fun f => f.table = t

/-- The field with a name in a table. -/
def ofKey? (table : SettingsTable) (key : String) : Option Field :=
  all.find? fun f => f.table = table && f.key = key

end Field

/-- Overrides of the layout of the area. -/
structure AreaSettings where
  /-- The binary logarithm of the blocks in a segment. -/
  segmentBits : Option Nat := none
  /-- The segments in a section. -/
  segmentsPerSection : Option Nat := none
  /-- The segments in the area. -/
  segments : Option Nat := none
  /-- The first block of the area. -/
  mainStart : Option Nat := none
  /-- The sections kept in reserve. -/
  reserved : Option Nat := none
  /-- The limit of the victim search. -/
  searchLimit : Option Nat := none
deriving DecidableEq

/-- Overrides of the pacing of background collection. -/
structure PacingSettings where
  /-- The shortest sleep in milliseconds. -/
  minSleep : Option Nat := none
  /-- The longest sleep in milliseconds. -/
  maxSleep : Option Nat := none
  /-- The sleep after a round without a victim, in milliseconds. -/
  idleSleep : Option Nat := none
  /-- The percentage of the area that must hold nothing live. -/
  invalidPct : Option Nat := none
  /-- The percentage that free space must stay below. -/
  freePct : Option Nat := none
deriving DecidableEq

/-- Overrides in two tables, each of which may be absent. -/
structure Settings where
  /-- Overrides of the layout of the area. -/
  area : Option AreaSettings := none
  /-- Overrides of the pacing of background collection. -/
  background : Option PacingSettings := none
deriving DecidableEq

/-- Why settings are refused. -/
inductive SettingsError where
  /-- The file could not be read. -/
  | io
  /-- The file is no acceptable settings document. -/
  | document
  /-- The value of a variable is no number of the width of its field. -/
  | invalidValue (key value : String)
  /-- A variable names no field. -/
  | unknownKey (key : String)
  /-- The layout is not acceptable. -/
  | invalidGeometry (status : Status)
deriving DecidableEq

namespace SettingsError

/-- The text of an error. -/
def message : SettingsError → String
  | .io => "io error"
  | .document => "toml parse error"
  | .invalidValue key value => "invalid value for " ++ key ++ ": " ++ value
  | .unknownKey key => "unknown config key: " ++ key
  | .invalidGeometry status => "invalid segment geometry: " ++ status.name

end SettingsError

namespace AreaSettings

/-- Applies the overrides to a layout; the limit of the victim search is at least one. -/
def apply (s : AreaSettings) (l : Layout) : Layout :=
  { segmentBits := s.segmentBits.getD l.segmentBits
    segmentsPerSection := s.segmentsPerSection.getD l.segmentsPerSection
    segments := s.segments.getD l.segments
    mainStart := s.mainStart.getD l.mainStart
    reserved := s.reserved.getD l.reserved
    searchLimit := (s.searchLimit.map (max · 1)).getD l.searchLimit }

end AreaSettings

namespace PacingSettings

/-- Nanoseconds in a number of milliseconds. -/
def nanos (millis : Nat) : Nat := millis * 1_000_000

/-- Applies the overrides to a pacing. Percentages are at most 100, and the longest sleep is at
least the shortest. -/
def apply (s : PacingSettings) (p : Pacing) : Pacing :=
  let minSleep := (s.minSleep.map nanos).getD p.minSleep
  { minSleep
    maxSleep := max ((s.maxSleep.map nanos).getD p.maxSleep) minSleep
    idleSleep := (s.idleSleep.map nanos).getD p.idleSleep
    invalidPct := (s.invalidPct.map (min · 100)).getD p.invalidPct
    freePct := (s.freePct.map (min · 100)).getD p.freePct }

end PacingSettings

namespace Settings

/-- Makes a table present. -/
def touch (s : Settings) : SettingsTable → Settings
  | .area => { s with area := some (s.area.getD {}) }
  | .background => { s with background := some (s.background.getD {}) }

/-- The value of a field, if it is set. -/
def get? (s : Settings) : Field → Option Nat
  | .segmentBits => s.area.bind (·.segmentBits)
  | .segmentsPerSection => s.area.bind (·.segmentsPerSection)
  | .segments => s.area.bind (·.segments)
  | .mainStart => s.area.bind (·.mainStart)
  | .reserved => s.area.bind (·.reserved)
  | .searchLimit => s.area.bind (·.searchLimit)
  | .minSleep => s.background.bind (·.minSleep)
  | .maxSleep => s.background.bind (·.maxSleep)
  | .idleSleep => s.background.bind (·.idleSleep)
  | .invalidPct => s.background.bind (·.invalidPct)
  | .freePct => s.background.bind (·.freePct)

/-- Sets a field, making its table present. -/
def set (s : Settings) (f : Field) (value : Nat) : Settings :=
  let a := s.area.getD {}
  let b := s.background.getD {}
  match f with
  | .segmentBits => { s with area := some { a with segmentBits := some value } }
  | .segmentsPerSection => { s with area := some { a with segmentsPerSection := some value } }
  | .segments => { s with area := some { a with segments := some value } }
  | .mainStart => { s with area := some { a with mainStart := some value } }
  | .reserved => { s with area := some { a with reserved := some value } }
  | .searchLimit => { s with area := some { a with searchLimit := some value } }
  | .minSleep => { s with background := some { b with minSleep := some value } }
  | .maxSleep => { s with background := some { b with maxSleep := some value } }
  | .idleSleep => { s with background := some { b with idleSleep := some value } }
  | .invalidPct => { s with background := some { b with invalidPct := some value } }
  | .freePct => { s with background := some { b with freePct := some value } }

/-- The layout that the settings ask for, if it is acceptable. -/
def layout (s : Settings) : Except SettingsError Layout :=
  let l := (s.area.map (·.apply {})).getD {}
  match l.geometry with
  | .ok _ => .ok l
  | .error status => .error (.invalidGeometry status)

/-- The pacing that the settings ask for. -/
def pacing (s : Settings) : Pacing := (s.background.map (·.apply {})).getD {}

end Settings

end Reclaim
