import Reclaim.Settings.Document
import Reclaim.Settings.Environment

/-!
# Loading settings

Settings come from a file, if one is named, and from the environment, which overrides the file.
-/

namespace Reclaim.Settings

/-- The settings in the bytes of a file, which must be text. -/
def ofBytes (bytes : ByteArray) : Except SettingsError Settings :=
  match String.fromUTF8? bytes with
  | none => .error .io
  | some text =>
    match ofDocument? text with
    | none => .error .document
    | some s => .ok s

/-- The settings of a file, which is `none` if it cannot be read. -/
def ofFile : Option ByteArray → Except SettingsError Settings
  | none => .error .io
  | some bytes => ofBytes bytes

/-- The settings of a file, if one is named, overridden by the environment. -/
def load (file : Option (Option ByteArray)) (environment : List (String × String)) :
    Except SettingsError Settings :=
  match file with
  | none => applyEnvironment {} environment
  | some bytes =>
    match ofFile bytes with
    | .error e => .error e
    | .ok s => s.applyEnvironment environment

end Reclaim.Settings
