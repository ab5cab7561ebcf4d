import Reclaim.Settings.Document.Blank

/-!
# Numbers of documents

`integer` reads an integer, in decimal with an optional sign or in another base without one; it
must fit 64 bits with a sign. `passFraction` passes over a number with a decimal point or an
exponent, or one of the words `inf` and `nan`. Single underscores may separate digits.
-/

namespace Reclaim.Document

/-- Reads digits of a base, which single underscores between two digits may separate. -/
def digits (base : Nat) : List Char → List Char × List Char
  | [] => ([], [])
  | [c] => if (Text.digit? base c).isSome then ([c], []) else ([], [c])
  | c :: d :: s =>
    if (Text.digit? base c).isSome then
      if d = '_' then
        match s with
        | e :: _ =>
          if (Text.digit? base e).isSome then
            let (ds, s) := digits base s
            (c :: ds, s)
          else ([c], d :: s)
        | [] => ([c], [d])
      else
        let (ds, s) := digits base (d :: s)
        (c :: ds, s)
    else ([], c :: d :: s)

/-- The number of a list of digits, if it is below `2 ^ 63`. -/
def magnitude? (base : Nat) (ds : List Char) : Option Nat :=
  if ds.isEmpty then none
  else (Text.number? base 0 ds).bind fun n => if n < 1 <<< 63 then some n else none

/-- Reads a number in a base other than ten, behind its mark. -/
def based (base : Nat) : Reader Int := fun s =>
  let (ds, s) := digits base s
  (magnitude? base ds).map fun n => ((n : Int), s)

/-- Reads decimal digits, at least one, as those that go on from the number `n`. With the number
they come to, there is their count. -/
def digitsFrom (n : Nat) : Reader (Nat × Nat) := fun s =>
  let (ds, s) := digits 10 s
  if ds.isEmpty then none else (Text.number? 10 n ds).map fun m => ((m, ds.length), s)

/-- Reads a decimal number. A number of several digits does not begin with zero. -/
def decimal : Reader Nat
  | '0' :: s => some (0, s)
  | s => (digitsFrom 0 s).map fun ((n, _), s) => (n, s)

/-- Reads an integer: decimal with an optional sign, or hexadecimal, octal or binary without one.
It must fit 64 bits with a sign. -/
def integer : Reader Int
  | '0' :: 'x' :: s => based 16 s
  | '0' :: 'o' :: s => based 8 s
  | '0' :: 'b' :: s => based 2 s
  | '-' :: s => (decimal s).bind fun (n, s) => if n ≤ 1 <<< 63 then some (-(n : Int), s) else none
  | '+' :: s => (decimal s).bind fun (n, s) => if n < 1 <<< 63 then some ((n : Int), s) else none
  | s => (decimal s).bind fun (n, s) => if n < 1 <<< 63 then some ((n : Int), s) else none

/-- The least number that rounds to infinity as a double: half a unit in the last place above the
greatest double. -/
def doubleBound : Nat := (1 <<< 54 - 1) <<< 970

/-- Whether `m * 10 ^ e` rounds to infinity as a double. The tests before the powers keep these
small: `10 ^ 309` is above the bound, and `m` is below `2 ^ (k + 1)` if its binary logarithm is at
most `k`. -/
def isHuge (m : Nat) : Int → Bool
  | .ofNat k => m ≠ 0 && (308 < k || doubleBound ≤ m * Nat.pow 10 k)
  | .negSucc k => k < m.log2 && doubleBound * Nat.pow 10 (k + 1) ≤ m

/-- Takes a sign off the front of a text, and tells whether it is a minus sign. -/
def sign : List Char → Bool × List Char
  | '-' :: s => (true, s)
  | '+' :: s => (false, s)
  | s => (false, s)

/-- Whether a character begins an exponent. -/
def isExponentMark (c : Char) : Bool := c = 'e' || c = 'E'

/-- Reads an exponent, which is zero if there is none. -/
def exponent : Reader Int
  | [] => some (0, [])
  | c :: s =>
    if isExponentMark c then
      let (negative, s) := sign s
      (digitsFrom 0 s).map fun ((n, _), s) => (if negative then -(n : Int) else n, s)
    else some (0, c :: s)

/-- Passes over a number with a decimal point or an exponent. A number that rounds to infinity as a
double is refused, unless it has a minus sign. -/
def passFraction (s : List Char) : Option (List Char) := do
  let (negative, s) := sign s
  let (n, s) ← decimal s
  let ((m, places), s) ←
    match s with
    | '.' :: s => digitsFrom n s
    | c :: _ => if isExponentMark c then some ((n, 0), s) else none
    | [] => none
  let (e, s) ← exponent s
  if !negative && isHuge m (e - places) then none else return s

/-- Passes over infinity or a value that is not a number, with an optional sign. -/
def passSpecial (s : List Char) : Option (List Char) :=
  let (_, s) := sign s
  (Text.behind? "inf".toList s).or (Text.behind? "nan".toList s)

end Reclaim.Document
