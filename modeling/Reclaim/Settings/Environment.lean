import Reclaim.Settings.Basic
import Reclaim.Settings.Text

/-!
# Overrides from the environment

A variable whose name begins with `variablePrefix` overrides one field. The rest of its name, in
any case, is the name of a table and the name of a field with a double underscore between them;
its value, without the blanks around it, is an unsigned decimal number of the width of the field.
Other variables have no effect.
-/

namespace Reclaim

/-- What the names of overriding variables begin with. -/
def variablePrefix : String := "F2FS_GC__"

/-- The field that a variable name addresses behind the prefix. -/
def Field.ofPath? (path : List Char) : Option Field :=
  match Text.splitName (Text.lower path) with
  | [table, key] =>
    (SettingsTable.ofKey? (String.ofList table)).bind fun t => Field.ofKey? t (String.ofList key)
  | _ => none

namespace Settings

/-- Applies one variable. -/
def applyVariable (s : Settings) (name value : String) : Except SettingsError Settings :=
  match Text.behind? variablePrefix.toList name.toList with
  | none => .ok s
  | some path =>
    match Field.ofPath? path with
    | none => .error (.unknownKey name)
    | some field =>
      let value := Text.trim value.toList
      match Text.unsigned? field.bits value with
      | none => .error (.invalidValue name (String.ofList value))
      | some n => .ok (s.set field n)

/-- Applies variables in order, up to the first that is refused. -/
def applyEnvironment (s : Settings) : List (String × String) → Except SettingsError Settings
  | [] => .ok s
  | (name, value) :: rest =>
    match s.applyVariable name value with
    | .error e => .error e
    | .ok s => s.applyEnvironment rest

end Settings

end Reclaim
