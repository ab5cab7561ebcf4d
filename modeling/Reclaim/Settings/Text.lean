/-!
# Numbers and blanks in text

Small readers of text that settings are made of: decimal numbers of a given width, text without the
blanks around it, and names split at double underscores.
-/

namespace Reclaim.Text

/-- The ranges of the characters with the Unicode property White_Space. -/
def blankRanges : List (Nat × Nat) :=
  [(0x09, 0x0D), (0x20, 0x20), (0x85, 0x85), (0xA0, 0xA0), (0x1680, 0x1680), (0x2000, 0x200A),
    (0x2028, 0x2029), (0x202F, 0x202F), (0x205F, 0x205F), (0x3000, 0x3000)]

/-- Whether a character is white space. -/
def isBlank (c : Char) : Bool := blankRanges.any fun r => r.1 ≤ c.toNat && c.toNat ≤ r.2

/-- A text without the white space at its ends. -/
def trim (s : List Char) : List Char :=
  ((s.dropWhile isBlank).reverse.dropWhile isBlank).reverse

/-- Whether a character is one of the ten decimal digits. -/
def isDigit (c : Char) : Bool := '0' ≤ c && c ≤ '9'

/-- The value of a digit of a base up to 16, in upper or lower case. -/
def digit? (base : Nat) (c : Char) : Option Nat :=
  let value :=
    if isDigit c then some (c.toNat - '0'.toNat)
    else if 'a' ≤ c && c ≤ 'f' then some (c.toNat - 'a'.toNat + 10)
    else if 'A' ≤ c && c ≤ 'F' then some (c.toNat - 'A'.toNat + 10)
    else none
  value.bind fun v => if v < base then some v else none

/-- The number written by a list of digits of a base after those of `acc`. -/
def number? (base : Nat) : Nat → List Char → Option Nat
  | acc, [] => some acc
  | acc, c :: cs =>
    match digit? base c with
    | none => none
    | some d => number? base (acc * base + d) cs

/-- An unsigned number of at most `bits` bits: decimal digits, at least one, perhaps after a plus
sign. Leading zeros are allowed. -/
def unsigned? (bits : Nat) (s : List Char) : Option Nat :=
  let digits :=
    match s with
    | '+' :: rest => rest
    | _ => s
  if digits.isEmpty then
    none
  else
    (number? 10 0 digits).bind fun n => if n < 1 <<< bits then some n else none

/-- Splits a name at double underscores, from the left. There is always at least one part. -/
def splitName : List Char → List (List Char)
  | [] => [[]]
  | '_' :: '_' :: rest => [] :: splitName rest
  | c :: rest =>
    match splitName rest with
    | [] => [[c]]
    | part :: parts => (c :: part) :: parts

/-- The text behind a leading one. -/
def behind? : List Char → List Char → Option (List Char)
  | [], s => some s
  | c :: cs, d :: ds => if c = d then behind? cs ds else none
  | _ :: _, [] => none

/-- A text with the letters of the alphabet in lower case; other characters stay. -/
def lower (s : List Char) : List Char := s.map Char.toLower

end Reclaim.Text
