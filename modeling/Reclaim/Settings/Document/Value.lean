import Reclaim.Settings.Document.Moment
import Reclaim.Settings.Document.Number
import Reclaim.Settings.Document.Quoted

/-!
# Keys and values of documents

A dotted key is a path of parts, each bare or quoted. A value is an integer, an array, an inline
table, or one of the values that no field takes: text, a fraction, a truth value, a date or a time.
`value` reads all of them, so that what is written beside a setting is known to be a value.
-/

namespace Reclaim

/-- The parts of a dotted key. -/
abbrev KeyPath := List (List Char)

/-- A value in a settings document. -/
inductive DocumentValue where
  /-- An integer. -/
  | integer (n : Int)
  /-- A value that no field takes. -/
  | other
  /-- An inline table. -/
  | table (entries : List (KeyPath × DocumentValue))
  /-- An array. -/
  | array (values : List DocumentValue)

namespace KeyPath

/-- Whether two keys of a table cannot stand beside each other: they are equal, or one of them
addresses a value inside the value of the other. -/
def clashes (p q : KeyPath) : Bool := p.isPrefixOf q || q.isPrefixOf p

/-- Whether keys can stand beside each other in a table. -/
def areApart : List KeyPath → Bool
  | [] => true
  | p :: ps => ps.all (fun q => !clashes p q) && areApart ps

end KeyPath

namespace Document

/-- How deep arrays and inline tables may nest, and how many parts a dotted key may have. -/
def depthLimit : Nat := 79

/-- Whether a character may stand in a bare key. -/
def isBare (c : Char) : Bool :=
  Text.isDigit c || ('a' ≤ c && c ≤ 'z') || ('A' ≤ c && c ≤ 'Z') || c = '_' || c = '-'

/-- Reads one part of a key. -/
def keyPart : Reader (List Char)
  | '"' :: s => quoted (s.length + 1) s
  | '\'' :: s => literal s
  | s =>
    let name := s.takeWhile isBare
    if name.isEmpty then none else some (name, s.dropWhile isBare)

/-- Reads a dotted key of at most `left` parts. -/
def keyPath : Nat → Reader KeyPath
  | 0, _ => none
  | left + 1, s => do
    let (part, s) ← keyPart s
    match skipSpace s with
    | '.' :: s => do
      let (parts, s) ← keyPath left (skipSpace s)
      return (part :: parts, s)
    | _ => return ([part], s)

/-- Reads a key, the equals sign behind it and the blanks around that. -/
def keyEquals (s : List Char) : Option (KeyPath × List Char) := do
  let (path, s) ← keyPath depthLimit s
  match skipSpace s with
  | '=' :: s => return (path, skipSpace s)
  | _ => none

/-- Reads a value that is no array and no table. -/
def scalar (s : List Char) : Option (DocumentValue × List Char) :=
  let passed :=
    [passQuoted, Text.behind? "true".toList, Text.behind? "false".toList, passMoment, passFraction,
      passSpecial].findSome? fun pass => pass s
  match passed with
  | some s => some (.other, s)
  | none => (integer s).map fun (n, s) => (.integer n, s)

/-- Reads the elements of an array and the bracket that closes it, at most `left` of them. The last
element may be followed by a comma, and lines may end between the elements. -/
def elements (element : Reader DocumentValue) : Nat → Reader (List DocumentValue)
  | 0, _ => none
  | left + 1, s => do
    match ← skipLines (s.length + 1) s with
    | ']' :: s => return ([], s)
    | s =>
      let (v, s) ← element s
      match ← skipLines (s.length + 1) s with
      | ',' :: s => do
        let (rest, s) ← elements element left s
        return (v :: rest, s)
      | ']' :: s => return ([v], s)
      | _ => none

/-- Reads the entries of an inline table and the brace that closes it, at most `left` of them. -/
def entries (entry : Reader DocumentValue) : Nat → Reader (List (KeyPath × DocumentValue))
  | 0, _ => none
  | left + 1, s => do
    let (path, s) ← keyEquals s
    let (v, s) ← entry s
    match skipSpace s with
    | ',' :: s => do
      let (rest, s) ← entries entry left (skipSpace s)
      return ((path, v) :: rest, s)
    | '}' :: s => return ([(path, v)], s)
    | _ => none

/-- Reads a value in which arrays and inline tables nest at most `depth` deep. The keys of a table
must be able to stand beside each other. -/
def value : Nat → Reader DocumentValue
  | 0, s => scalar s
  | depth + 1, '[' :: s =>
    (elements (value depth) (s.length + 1) s).map fun (vs, s) => (.array vs, s)
  | depth + 1, '{' :: s =>
    match skipSpace s with
    | '}' :: s => some (.table [], s)
    | s =>
      (entries (value depth) (s.length + 1) s).bind fun (es, s) =>
        if KeyPath.areApart (es.map (·.1)) then some (.table es, s) else none
  | _ + 1, s => scalar s

end Document

end Reclaim
