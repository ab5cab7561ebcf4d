import Reclaim.Settings.Basic
import Reclaim.Settings.Document.Value

/-!
# Settings documents

Settings are written in TOML: table headers and keys with values, with comments and blank lines
between them. Every setting is an integer in one of two tables, so a document that names anything
else is refused. `Statement.ofText?` reads the statements of a document and
`Settings.ofStatements?` carries them out. A table may be opened once by a header, or written once
as an inline table or as the array of the values of its fields, behind which any values may stand;
dotted keys before the first header may add to it bit by bit, but not in addition to the other
ways; and no field may be set twice.
-/

namespace Reclaim

/-- A statement of a settings document. -/
inductive Statement where
  /-- A table header. -/
  | header (path : KeyPath)
  /-- A key with its value. -/
  | assign (path : KeyPath) (value : DocumentValue)

namespace Document

/-- Reads a statement at the front of a line, without the blanks before it. -/
def statement : Reader Statement
  | '[' :: s => do
    let (path, s) ← keyPath depthLimit (skipSpace s)
    match skipSpace s with
    | ']' :: s => return (.header path, s)
    | _ => none
  | s => do
    let (path, s) ← keyEquals s
    let (v, s) ← value depthLimit s
    return (.assign path v, s)

/-- Whether a line holds no statement, by its text without the blanks at its front. -/
def isBlankLine : List Char → Bool
  | [] => true
  | c :: _ => c = '#' || c = '\n' || c = '\r'

/-- Reads the lines of a document, at most `left` of them. -/
def lines : Nat → List Char → Option (List Statement)
  | _, [] => some []
  | 0, _ => none
  | left + 1, s => do
    let s := skipSpace s
    if isBlankLine s then
      lines left (← lineEnd s)
    else
      let (x, s) ← statement s
      let xs ← lines left (← lineEnd s)
      return x :: xs

end Document

/-- The statements of a document, if it can be read. A byte order mark before the first line is
passed over. -/
def Statement.ofText? (text : String) : Option (List Statement) :=
  let s :=
    match text.toList with
    | '\uFEFF' :: s => s
    | s => s
  Document.lines (s.length + 1) s

/-- The state of carrying out the statements of a document. -/
structure DocumentState where
  /-- The settings so far. -/
  settings : Settings := {}
  /-- The table of the last header. -/
  current : Option SettingsTable := none
  /-- The tables that were opened by a header or written inline. -/
  closed : List SettingsTable := []

namespace DocumentState

/-- Sets a field to an integer that must not be negative and must fit the width of the field; the
field must not be set yet. -/
def setValue (d : DocumentState) (f : Field) (n : Int) : Option DocumentState :=
  if (d.settings.get? f).isSome then none
  else
    match n with
    | .negSucc _ => none
    | .ofNat n => if n < 1 <<< f.bits then some { d with settings := d.settings.set f n } else none

/-- Sets the field with a name in a table. -/
def setField (d : DocumentState) (t : SettingsTable) (key : List Char) (n : Int) :
    Option DocumentState :=
  (Field.ofKey? t (String.ofList key)).bind fun f => d.setValue f n

/-- Sets fields to the values of an array in order. There must be an integer for each of them;
further values of any kind are passed over. -/
def setRow (d : DocumentState) : List Field → List DocumentValue → Option DocumentState
  | [], _ => some d
  | f :: fs, .integer n :: vs => (d.setValue f n).bind fun d => d.setRow fs vs
  | _ :: _, _ => none

/-- Sets the fields of an inline table. -/
def setFields (d : DocumentState) (t : SettingsTable) :
    List (KeyPath × DocumentValue) → Option DocumentState
  | [] => some d
  | ([key], .integer n) :: rest => (d.setField t key n).bind fun d => d.setFields t rest
  | _ :: _ => none

/-- Whether a table has been named so far. -/
def isNamed (d : DocumentState) : SettingsTable → Bool
  | .area => d.settings.area.isSome
  | .background => d.settings.background.isSome

/-- Opens a table for good; it must not have been named before. -/
def close (d : DocumentState) (t : SettingsTable) : Option DocumentState :=
  if d.isNamed t then none
  else some { d with settings := d.settings.touch t, closed := t :: d.closed }

/-- Carries out a statement. -/
def step (d : DocumentState) : Statement → Option DocumentState
  | .header [table] => do
    let t ← SettingsTable.ofKey? (String.ofList table)
    let d ← d.close t
    return { d with current := some t }
  | .header _ => none
  | .assign path value =>
    match d.current, path, value with
    | some t, [key], .integer n => d.setField t key n
    | none, [table, key], .integer n => do
      let t ← SettingsTable.ofKey? (String.ofList table)
      if t ∈ d.closed then none else d.setField t key n
    | none, [table], .table entries => do
      let t ← SettingsTable.ofKey? (String.ofList table)
      let d ← d.close t
      d.setFields t entries
    | none, [table], .array values => do
      let t ← SettingsTable.ofKey? (String.ofList table)
      let d ← d.close t
      d.setRow (Field.ofTable t) values
    | _, _, _ => none

/-- Carries out a list of statements. -/
def steps (d : DocumentState) : List Statement → Option DocumentState
  | [] => some d
  | s :: rest => (d.step s).bind fun d => d.steps rest

end DocumentState

namespace Settings

/-- The settings that a list of statements makes. -/
def ofStatements? (statements : List Statement) : Option Settings :=
  (DocumentState.steps {} statements).map (·.settings)

/-- The settings of a document. -/
def ofDocument? (text : String) : Option Settings := (Statement.ofText? text).bind ofStatements?

end Settings

end Reclaim
