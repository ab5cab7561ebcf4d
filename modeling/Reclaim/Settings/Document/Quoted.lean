import Reclaim.Settings.Document.Blank

/-!
# Quoted text of documents

Text between double quotes, in which a backslash begins an escape, and between single quotes, in
which it does not. Between three quotes of a kind, text may go over several lines. Keys are the
only quoted text that settings depend on, so `quoted` and `literal` read what stands between single
marks, and `passLong` only passes over text between triple ones.
-/

namespace Reclaim.Document

/-- A character by the digits of its number, if there is such a character. -/
def scalar? (digits : List Char) : Option Char :=
  (Text.number? 16 0 digits).bind fun n =>
    if n < 0xD800 ∨ (0xDFFF < n ∧ n < 0x110000) then some (Char.ofNat n) else none

/-- Reads an escape behind its backslash. -/
def escape : Reader Char
  | 'b' :: s => some ('\x08', s)
  | 't' :: s => some ('\t', s)
  | 'n' :: s => some ('\n', s)
  | 'f' :: s => some ('\x0c', s)
  | 'r' :: s => some ('\r', s)
  | '"' :: s => some ('"', s)
  | '\\' :: s => some ('\\', s)
  | 'u' :: a :: b :: c :: d :: s => (scalar? [a, b, c, d]).map (·, s)
  | 'U' :: a :: b :: c :: d :: e :: f :: g :: h :: s =>
    (scalar? [a, b, c, d, e, f, g, h]).map (·, s)
  | _ => none

/-- Reads text in double quotes behind the first of them, at most `left` characters of it. -/
def quoted : Nat → Reader (List Char)
  | 0, _ => none
  | _ + 1, [] => none
  | left + 1, c :: s =>
    if c = '"' then some ([], s)
    else if c = '\\' then do
      let (x, s) ← escape s
      let (xs, s) ← quoted left s
      return (x :: xs, s)
    else if isPlain c then do
      let (xs, s) ← quoted left s
      return (c :: xs, s)
    else none

/-- Reads text in single quotes behind the first of them. -/
def literal : Reader (List Char)
  | [] => none
  | c :: s =>
    if c = '\'' then some ([], s)
    else if isPlain c then (literal s).map fun (xs, s) => (c :: xs, s)
    else none

/-- Passes over an escape in text of several lines, behind its backslash. There a backslash may
also stand before the end of a line, with blanks between them. -/
def passEscape (s : List Char) : Option (List Char) :=
  match skipSpace s with
  | '\n' :: s => some s
  | '\r' :: '\n' :: s => some s
  | _ => (escape s).map (·.2)

/-- Passes over text of several lines behind the three marks that open it, at most `left`
characters of it. It ends at the first run of three marks or more, of which at most two belong to
the text and the next three close it. Only between double quotes are there escapes. -/
def passLong (mark : Char) : Nat → List Char → Option (List Char)
  | 0, _ => none
  | left + 1, '\r' :: '\n' :: s => passLong mark left s
  | _ + 1, [] => none
  | left + 1, c :: s =>
    if c = mark then
      let more := (s.takeWhile (· = mark)).length
      if more < 2 then passLong mark left (s.drop more) else some (s.drop (min more 4))
    else if c = '\\' && mark = '"' then (passEscape s).bind (passLong mark left)
    else if c = '\n' || isPlain c then passLong mark left s
    else none

/-- Passes over a text of any of the four kinds. -/
def passQuoted : List Char → Option (List Char)
  | '"' :: '"' :: '"' :: s => passLong '"' (s.length + 1) s
  | '\'' :: '\'' :: '\'' :: s => passLong '\'' (s.length + 1) s
  | '"' :: s => (quoted (s.length + 1) s).map (·.2)
  | '\'' :: s => (literal s).map (·.2)
  | _ => none

end Reclaim.Document
