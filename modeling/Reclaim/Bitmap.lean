import Reclaim.Trap

/-!
# Bitmaps

A `Bitmap` of size `n` holds a set of numbers below `n` in words of 64 bits. It answers as a set
does: `contains`, `insert`, `erase`, `card`, `toList`, and `next`, the least member in a range.
`next` walks the words: it masks the members below the start out of the first word, skips empty
words, and takes the lowest bit of the first word that has one. The last word may have more bits
than the map has numbers left; they stay clear as long as only numbers below the size are
inserted.
-/

namespace Reclaim

namespace Word

/-- Whether bit `k` of a word is set. -/
def bit (w : UInt64) (k : Nat) : Bool := w.toBitVec.getLsbD k

/-- The word with bit `k` alone. -/
def single (k : Nat) : UInt64 := ⟨BitVec.twoPow 64 k⟩

/-- The word with every bit from `k` on. -/
def upFrom (k : Nat) : UInt64 := ⟨BitVec.allOnes 64 <<< k⟩

/-- The position of the lowest bit of a word, 64 for the empty word. -/
def lowest (w : UInt64) : Nat := ((List.range 64).find? (bit w)).getD 64

/-- The number of bits of a word. -/
def population (w : UInt64) : Nat := (List.range 64).countP (bit w)

end Word

/-- A set of numbers below a fixed size, 64 to a word. -/
structure Bitmap where
  /-- The words, lowest numbers first. -/
  words : Array UInt64
  /-- The numbers below this one may be members. -/
  size : Nat
deriving DecidableEq

namespace Bitmap

/-- The empty set of numbers below `size`. -/
def empty (size : Nat) : Bitmap := ⟨Array.replicate ((size + 63) / 64) 0, size⟩

/-- The word at an index, empty past the end. -/
def word (b : Bitmap) (k : Nat) : UInt64 := b.words[k]?.getD 0

/-- Whether a number is a member; a number at or past the size never is. -/
def contains (b : Bitmap) (i : Nat) : Bool :=
  i < b.size && Word.bit (b.word (i / 64)) (i % 64)

/-- Adds a number, telling whether it was there before. A number past the last word traps. The
number should lie below the size; an assertion of that is left out. -/
def insert (b : Bitmap) (i : Nat) : Guarded (Bool × Bitmap) :=
  if h : i / 64 < b.words.size then
    let w := b.words[i / 64]
    .ok (Word.bit w (i % 64),
      { b with words := b.words.set (i / 64) (w ||| Word.single (i % 64)) })
  else
    .error .index

/-- Removes a number, telling whether it was there before. A number past the last word traps. The
number should lie below the size; an assertion of that is left out. -/
def erase (b : Bitmap) (i : Nat) : Guarded (Bool × Bitmap) :=
  if h : i / 64 < b.words.size then
    let w := b.words[i / 64]
    .ok (Word.bit w (i % 64),
      { b with words := b.words.set (i / 64) (w &&& ~~~Word.single (i % 64)) })
  else
    .error .index

/-- The number of members. -/
def card (b : Bitmap) : Nat := b.words.foldl (fun n w => n + Word.population w) 0

/-- The least member from the word `w` at index `k` on, or `stop` if there is none below it; at
most `left` further words are looked at. -/
def nextWord (b : Bitmap) (stop : Nat) : Nat → Nat → UInt64 → Nat
  | left, k, w =>
    if w ≠ 0 then
      min (64 * k + Word.lowest w) stop
    else
      match left with
      | 0 => stop
      | left + 1 =>
        if stop ≤ 64 * (k + 1) then stop else nextWord b stop left (k + 1) (b.word (k + 1))

/-- The least member at or after `start` and below `stop`. If there is none the answer is `stop`,
cut down to the size of the map. -/
def next (b : Bitmap) (start stop : Nat) : Nat :=
  let stop := min stop b.size
  if stop ≤ start then
    stop
  else
    b.nextWord stop b.words.size (start / 64) (b.word (start / 64) &&& Word.upFrom (start % 64))

/-- The members from `start` on, found one after the other, at most `left` of them. -/
def members (b : Bitmap) : Nat → Nat → List Nat
  | 0, _ => []
  | left + 1, start =>
    let i := b.next start b.size
    if b.size ≤ i then [] else i :: members b left (i + 1)

/-- The members in ascending order. -/
def toList (b : Bitmap) : List Nat := b.members b.size 0

end Bitmap

end Reclaim
