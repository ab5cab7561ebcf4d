import Mathlib.Tactic.Common
import Mathlib.Algebra.Order.Ring.Nat
import Reclaim.Trap

/-!
# Steps of checked operations

A checked operation that gave a value has passed each of its steps: `bind_eq_ok` takes such a run
apart, and the equations tagged for `simp` run a step whose outcome is known.
-/

namespace Reclaim.Guarded

variable {α β : Type}

/-- An operation goes on with the value of a step. -/
@[simp]
theorem ok_bind (x : α) (f : α → Guarded β) : ((.ok x : Guarded α) >>= f) = f x := rfl

/-- An operation stops with the trap of a step. -/
@[simp]
theorem error_bind (t : Trap) (f : α → Guarded β) :
    ((.error t : Guarded α) >>= f) = .error t := rfl

/-- A returned value is a step that gives it. -/
@[simp]
theorem pure_eq_ok (x : α) : (pure x : Guarded α) = .ok x := rfl

/-- A value of two steps in a row is a value of the second at a value of the first. -/
theorem bind_eq_ok {x : Guarded α} {f : α → Guarded β} {b : β} :
    x >>= f = .ok b ↔ ∃ a, x = .ok a ∧ f a = .ok b := by
  cases x with
  | error t =>
    rw [error_bind]
    constructor
    · intro h
      cases h
    · rintro ⟨_, h, _⟩
      cases h
  | ok a =>
    rw [ok_bind]
    exact ⟨fun h => ⟨a, rfl, h⟩, fun ⟨_, ha, h⟩ => by cases ha; exact h⟩

/-- An operation that has a value gives it. -/
theorem eq_ok_of_toOption {x : Guarded α} {a : α} (h : x.toOption = some a) : x = .ok a := by
  cases x with
  | error t => cases h
  | ok b => exact congrArg _ (Option.some.inj h)

/-- The trap of an operation that stops with one. -/
def trap? : Guarded α → Option Trap
  | .error t => some t
  | .ok _ => none

/-- An operation that has a trap stops with it. -/
theorem eq_error_of_trap? {x : Guarded α} {t : Trap} (h : trap? x = some t) : x = .error t := by
  cases x with
  | error t' => exact congrArg _ (Option.some.inj h)
  | ok a => cases h

/-- Going on after either branch is going on after the branching. -/
theorem ite_bind (c : Prop) [Decidable c] (x y : Guarded α) (f : α → Guarded β) :
    (if c then x >>= f else y >>= f) = (if c then x else y) >>= f := by
  split_ifs <;> rfl

/-- An element of a table is fetched. -/
theorem fetch_eq {xs : Array α} {i : ℕ} (h : i < xs.size) : fetch xs i = .ok xs[i] := by
  unfold fetch
  rw [Array.getElem?_eq_getElem h]

/-- A value that is fetched is the element at the index. -/
theorem fetch_eq_ok {xs : Array α} {i : ℕ} {x : α} : fetch xs i = .ok x ↔ xs[i]? = some x := by
  unfold fetch
  cases xs[i]? with
  | none => simp
  | some y => simp

/-- A difference that stays above zero is computed. -/
theorem minus_eq {a b : ℕ} (h : b ≤ a) : minus a b = .ok (a - b) := if_pos h

/-- A difference that was computed stays above zero. -/
theorem minus_eq_ok {a b c : ℕ} : minus a b = .ok c ↔ b ≤ a ∧ a - b = c := by
  unfold minus
  split_ifs with h
  · simp [h]
  · simp [h]

/-- A number that passed the check is the one that was checked, and it has 32 bits. -/
theorem fit32_eq_ok {n m : ℕ} : fit32 n = .ok m ↔ n < 2 ^ 32 ∧ n = m := by
  unfold fit32
  split_ifs with h
  · simp [h]
  · simp [h]

/-- A number of 32 bits passes the check. -/
theorem fit32_eq {n : ℕ} (h : n < 2 ^ 32) : fit32 n = .ok n := if_pos h

/-- A number of more bits does not. -/
theorem fit32_eq_error {n : ℕ} (h : 2 ^ 32 ≤ n) : fit32 n = .error .width :=
  if_neg (Nat.not_lt_of_le h)

/-- A number that passed the check is the one that was checked, and it has 64 bits. -/
theorem fit64_eq_ok {n m : ℕ} : fit64 n = .ok m ↔ n < 2 ^ 64 ∧ n = m := by
  unfold fit64
  split_ifs with h
  · simp [h]
  · simp [h]

/-- A number of 64 bits passes the check. -/
theorem fit64_eq {n : ℕ} (h : n < 2 ^ 64) : fit64 n = .ok n := if_pos h

/-- A number of more bits does not. -/
theorem fit64_eq_error {n : ℕ} (h : 2 ^ 64 ≤ n) : fit64 n = .error .width :=
  if_neg (Nat.not_lt_of_le h)

/-- A number of 64 bits passes the check, and no other does. -/
theorem fit64_cases (n : ℕ) : fit64 n = .ok n ∨ fit64 n = .error .width := by
  unfold fit64
  split_ifs
  · exact Or.inl rfl
  · exact Or.inr rfl

end Reclaim.Guarded
