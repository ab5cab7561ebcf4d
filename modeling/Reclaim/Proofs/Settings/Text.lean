import Mathlib.Data.List.TakeWhile
import Mathlib.Data.Nat.Digits.Defs
import Reclaim.Settings.Text

/-!
# What the readers of text accept

Each reader of `Settings/Text` is characterised by what it accepts. A name is what its parts make
when they are joined again (`intercalate_splitName`), and the text behind a leading one is the rest
(`behind?_eq_some_iff`). `Numeral` says what an unsigned number of a given width looks like, and
`unsigned?_trim` that such a number is read exactly from the texts that have it between blanks.
-/

namespace Reclaim.Text

/-! ## Parts of names -/

/-- The text behind a leading one is what is left of it. -/
theorem behind?_eq_some_iff {lead s rest : List Char} :
    behind? lead s = some rest ↔ s = lead ++ rest := by
  induction lead generalizing s with
  | nil => simp [behind?]
  | cons c lead ih =>
    cases s with
    | nil => simp [behind?]
    | cons d s =>
      unfold behind?
      by_cases hc : c = d
      · simp [hc, ih]
      · simp [hc, Ne.symm hc]

/-- The parts of a name, joined again, make the name. -/
theorem intercalate_splitName (s : List Char) :
    splitName s ≠ [] ∧ ['_', '_'].intercalate (splitName s) = s := by
  fun_induction splitName s with
  | case1 => exact ⟨List.cons_ne_nil _ _, rfl⟩
  | case2 rest ih =>
    obtain ⟨part, parts, hsplit⟩ := List.exists_cons_of_ne_nil ih.1
    rw [hsplit] at ih ⊢
    refine ⟨List.cons_ne_nil _ _, ?_⟩
    conv_rhs => rw [← ih.2]
    rfl
  | case3 c rest _ hsplit ih => exact absurd hsplit ih.1
  | case4 c rest _ part parts hsplit ih =>
    refine ⟨List.cons_ne_nil _ _, ?_⟩
    rw [hsplit] at ih
    conv_rhs => rw [← ih.2]
    cases parts <;> rfl

/-! ## Numbers -/

/-- The value of a decimal digit. -/
def digitValue (c : Char) : ℕ := c.toNat - '0'.toNat

/-- Whether a text is an unsigned number of at most `bits` bits: decimal digits, at least one,
perhaps behind a plus sign. -/
structure Numeral (bits : ℕ) (s : List Char) (n : ℕ) : Prop where
  /-- The digits of the number. -/
  digits : ∃ digits, (s = digits ∨ s = '+' :: digits) ∧ digits ≠ [] ∧
    (∀ c ∈ digits, isDigit c = true) ∧ n = Nat.ofDigits 10 (digits.reverse.map digitValue)
  /-- The number fits its width. -/
  fits : n < 2 ^ bits

/-- A decimal digit is between zero and nine. -/
theorem isDigit_iff {c : Char} : isDigit c = true ↔ 48 ≤ c.toNat ∧ c.toNat ≤ 57 := by
  unfold isDigit
  rw [Bool.and_eq_true, decide_eq_true_iff, decide_eq_true_iff]
  rfl

/-- The digits of base ten are the decimal ones. -/
theorem digit?_ten (c : Char) :
    digit? 10 c = if isDigit c then some (digitValue c) else none := by
  unfold digit?
  dsimp only
  by_cases hc : isDigit c = true
  · have hrange := isDigit_iff.mp hc
    rw [if_pos hc, if_pos hc]
    exact if_pos (show c.toNat - 48 < 10 by omega)
  · -- A letter is worth ten at least.
    have hletter : ∀ v : ℕ, (some (v + 10)).bind (fun v => if v < 10 then some v else none) =
        none := by
      intro v
      rw [Option.bind_some, if_neg (Nat.not_lt_of_le (Nat.le_add_left 10 v))]
    rw [if_neg hc, if_neg hc]
    split_ifs
    · exact hletter _
    · exact hletter _
    · rfl

/-- Digits continue a number when each of them is a decimal one. -/
theorem number?_ten {digits : List Char} {acc n : ℕ} :
    number? 10 acc digits = some n ↔ (∀ c ∈ digits, isDigit c = true) ∧
      n = acc * 10 ^ digits.length + Nat.ofDigits 10 (digits.reverse.map digitValue) := by
  induction digits generalizing acc with
  | nil =>
    rw [List.length_nil, pow_zero, mul_one, List.reverse_nil, List.map_nil, Nat.ofDigits_nil,
      add_zero, and_iff_right (List.forall_mem_nil _), eq_comm (a := n)]
    exact Option.some_inj
  | cons c digits ih =>
    unfold number?
    rw [digit?_ten, List.forall_mem_cons]
    by_cases hc : isDigit c = true
    · have hvalue : (acc * 10 + digitValue c) * 10 ^ digits.length +
          Nat.ofDigits 10 (digits.reverse.map digitValue) = acc * 10 ^ (c :: digits).length +
          Nat.ofDigits 10 ((c :: digits).reverse.map digitValue) := by
        rw [List.reverse_cons, List.map_append, Nat.ofDigits_append, List.length_map,
          List.length_reverse, List.length_cons, List.map_singleton, Nat.ofDigits_singleton]
        ring
      rw [if_pos hc, ← hvalue]
      dsimp only
      rw [ih, and_iff_right hc]
    · rw [if_neg hc]
      simp [hc]

/-- An unsigned number is read from the texts that are one. -/
theorem unsigned?_eq_some_iff {bits n : ℕ} {s : List Char} :
    unsigned? bits s = some n ↔ Numeral bits s n := by
  have hread : ∀ digits : List Char,
      (if digits.isEmpty then none
        else (number? 10 0 digits).bind fun n => if n < 1 <<< bits then some n else none) = some n ↔
      digits ≠ [] ∧ (∀ c ∈ digits, isDigit c = true) ∧
        n = Nat.ofDigits 10 (digits.reverse.map digitValue) ∧ n < 2 ^ bits := by
    intro digits
    cases digits with
    | nil => simp
    | cons c digits =>
      rw [if_neg (show ¬(c :: digits).isEmpty = true from Bool.false_ne_true),
        Option.bind_eq_some_iff, Nat.one_shiftLeft]
      simp only [number?_ten, zero_mul, zero_add, Option.ite_none_right_eq_some,
        Option.some_inj]
      constructor
      · rintro ⟨_, ⟨hall, hn⟩, hfits, rfl⟩
        exact ⟨List.cons_ne_nil _ _, hall, hn, hfits⟩
      · rintro ⟨-, hall, hn, hfits⟩
        exact ⟨n, ⟨hall, hn⟩, hfits, rfl⟩
  have hplus : isDigit '+' = false := by decide
  unfold unsigned?
  dsimp only
  split
  · next rest =>
    rw [hread]
    constructor
    · rintro ⟨hne, hall, hn, hfits⟩
      exact ⟨⟨rest, .inr rfl, hne, hall, hn⟩, hfits⟩
    · rintro ⟨⟨digits, hs, hne, hall, hn⟩, hfits⟩
      obtain rfl | hrest := hs
      · -- A plus sign is no digit, so the number cannot begin with it.
        rw [hall '+' List.mem_cons_self] at hplus
        exact absurd hplus Bool.noConfusion
      · rw [(List.cons.inj hrest).2]
        exact ⟨hne, hall, hn, hfits⟩
  · next hnoplus =>
    rw [hread]
    constructor
    · rintro ⟨hne, hall, hn, hfits⟩
      exact ⟨⟨s, .inl rfl, hne, hall, hn⟩, hfits⟩
    · rintro ⟨⟨digits, rfl | hs, hne, hall, hn⟩, hfits⟩
      · exact ⟨hne, hall, hn, hfits⟩
      · exact absurd hs (hnoplus digits)

/-! ## Blanks -/

/-- No character of a number is a blank. -/
theorem Numeral.isBlank_eq_false {bits n : ℕ} {s : List Char} (h : Numeral bits s n) :
    ∀ c ∈ s, isBlank c = false := by
  have hdigit : ∀ c, isDigit c = true → isBlank c = false := by
    intro c hc
    have hrange := isDigit_iff.mp hc
    simp [isBlank, blankRanges]
    omega
  obtain ⟨digits, hs, -, hall, -⟩ := h.digits
  rcases hs with rfl | rfl
  · exact fun c hc => hdigit c (hall c hc)
  · exact List.forall_mem_cons.mpr ⟨by decide, fun c hc => hdigit c (hall c hc)⟩

/-- Trimming takes blanks off the ends of a text. -/
theorem exists_trim (s : List Char) : ∃ front back, s = front ++ trim s ++ back ∧
    (∀ c ∈ front, isBlank c = true) ∧ ∀ c ∈ back, isBlank c = true := by
  refine ⟨s.takeWhile isBlank, ((s.dropWhile isBlank).reverse.takeWhile isBlank).reverse, ?_,
    fun c hc => ?_, fun c hc => ?_⟩
  · unfold trim
    rw [List.append_assoc, ← List.reverse_append, List.takeWhile_append_dropWhile,
      List.reverse_reverse, List.takeWhile_append_dropWhile]
  · exact List.mem_takeWhile_imp hc
  · exact List.mem_takeWhile_imp (List.mem_reverse.mp hc)

/-- A text without blanks, between blanks, is what trimming leaves. -/
theorem trim_append {front s back : List Char} (hfront : ∀ c ∈ front, isBlank c = true)
    (hs : ∀ c ∈ s, isBlank c = false) (hback : ∀ c ∈ back, isBlank c = true) (hne : s ≠ []) :
    trim (front ++ s ++ back) = s := by
  have hkeep : ∀ t rest : List Char, t ≠ [] → (∀ c ∈ t, isBlank c = false) →
      (t ++ rest).dropWhile isBlank = t ++ rest := by
    intro t rest ht hall
    obtain ⟨c, t', rfl⟩ := List.exists_cons_of_ne_nil ht
    rw [List.cons_append, List.dropWhile_cons, hall c List.mem_cons_self]
    rfl
  unfold trim
  rw [List.append_assoc, List.dropWhile_append_of_pos hfront, hkeep s back hne hs,
    List.reverse_append, List.dropWhile_append_of_pos fun c hc => hback c (List.mem_reverse.mp hc)]
  have hrev := hkeep s.reverse [] (by simpa using hne) fun c hc => hs c (List.mem_reverse.mp hc)
  rw [List.append_nil] at hrev
  rw [hrev, List.reverse_reverse]

/-- Whether a text is a number of at most `bits` bits, perhaps between blanks. -/
def Reads (bits : ℕ) (s : List Char) (n : ℕ) : Prop :=
  ∃ front text back, s = front ++ text ++ back ∧ (∀ c ∈ front, isBlank c = true) ∧
    (∀ c ∈ back, isBlank c = true) ∧ Numeral bits text n

/-- A number is read from what trimming leaves exactly of the texts that have it between blanks. -/
theorem unsigned?_trim {bits n : ℕ} {s : List Char} :
    unsigned? bits (trim s) = some n ↔ Reads bits s n := by
  rw [unsigned?_eq_some_iff]
  constructor
  · intro h
    obtain ⟨front, back, hs, hfront, hback⟩ := exists_trim s
    exact ⟨front, trim s, back, hs, hfront, hback, h⟩
  · rintro ⟨front, text, back, rfl, hfront, hback, h⟩
    have hne : text ≠ [] := by
      obtain ⟨digits, rfl | rfl, hne, -⟩ := h.digits
      · exact hne
      · exact List.cons_ne_nil _ _
    rwa [trim_append hfront h.isBlank_eq_false hback hne]

/-- Whether a text is a number between blanks can be decided. -/
instance (bits : ℕ) (s : List Char) (n : ℕ) : Decidable (Reads bits s n) :=
  decidable_of_iff _ unsigned?_trim

end Reclaim.Text
