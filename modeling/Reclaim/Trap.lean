/-!
# Operations that stop without an answer

The tables of the main area have fixed lengths and its counts fixed widths. An operation that
would reach past a table, take a count below zero or carry a sum past its width stops with a
`Trap` and leaves no state behind; a refusal, in contrast, is a value of the operation
(`Outcome`) beside the state it reached. `Guarded` is the monad of such operations, with the
checked steps they are made of.
-/

namespace Reclaim

/-- Why an operation stopped without an answer. -/
inductive Trap where
  /-- An index lies past the end of a table. -/
  | index
  /-- A number left the width of its field. -/
  | width
  /-- A caller waits for the collection lock that it holds itself. -/
  | deadlock
  /-- A loop went past the bound on its rounds. -/
  | runaway
deriving DecidableEq

/-- An operation that either stops with a trap or gives a value. -/
abbrev Guarded := Except Trap

namespace Guarded

/-- The element of a table at an index. -/
def fetch {α : Type} (xs : Array α) (i : Nat) : Guarded α :=
  match xs[i]? with
  | some x => .ok x
  | none => .error .index

/-- A difference that must not go below zero. -/
def minus (a b : Nat) : Guarded Nat :=
  if b ≤ a then .ok (a - b) else .error .width

/-- A number that must fit 32 bits. -/
def fit32 (n : Nat) : Guarded Nat :=
  if n < 0x1_0000_0000 then .ok n else .error .width

/-- A number that must fit 64 bits. -/
def fit64 (n : Nat) : Guarded Nat :=
  if n < 0x1_0000_0000_0000_0000 then .ok n else .error .width

end Guarded

end Reclaim
