import Reclaim.Settings.Text

/-!
# Blanks and line ends of documents

What stands between the parts of a settings document: blanks inside a line, comments, and the ends
of lines, which are a line feed with or without a carriage return before it.
-/

namespace Reclaim.Document

/-- A reader takes a value off the front of a text. -/
abbrev Reader (α : Type) := List Char → Option (α × List Char)

/-- Whether a character is a blank inside a line. -/
def isSpace (c : Char) : Bool := c = ' ' || c = '\t'

/-- A text without the blanks at its front. -/
def skipSpace (s : List Char) : List Char := s.dropWhile isSpace

/-- Whether a character may stand in a comment or between quotes: no control character but the
tab. -/
def isPlain (c : Char) : Bool := c = '\t' || (' ' ≤ c && c.toNat ≠ 0x7F)

/-- Reads the rest of a line behind its statement: blanks, a comment, and the end of the line or of
the text. -/
def lineEnd (s : List Char) : Option (List Char) :=
  let s := skipSpace s
  let s :=
    match s with
    | '#' :: s => s.dropWhile isPlain
    | s => s
  match s with
  | [] => some []
  | '\n' :: s => some s
  | '\r' :: '\n' :: s => some s
  | _ => none

/-- A text without the blanks, comments and line ends at its front, at most `left` lines of them. -/
def skipLines : Nat → List Char → Option (List Char)
  | 0, _ => none
  | left + 1, s =>
    match skipSpace s with
    | '#' :: s => (lineEnd ('#' :: s)).bind (skipLines left)
    | '\n' :: s => skipLines left s
    | '\r' :: '\n' :: s => skipLines left s
    | s => some s

end Reclaim.Document
