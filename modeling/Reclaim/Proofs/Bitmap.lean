import Mathlib.Data.Finset.Card
import Mathlib.Data.Finset.Range
import Reclaim.Bitmap

/-!
# Bitmaps as finite sets

A well-formed bitmap is the finite set `Bitmap.toFinset` of its members, and every operation on it
is the operation on sets that its name says: `insert_spec` and `erase_spec` change one member and
tell whether it was there, `card_eq` counts, `next_spec` finds the least member of a range, and
`mem_toList` with `toList_sorted` list the members in order.

The bottom layer is one word. `Word.bit` reads a word as a set of positions below 64, and the masks
of the operations are characterised by the bits they leave. `Bitmap.contains_eq_bit` carries this
to the map, whose member `i` is bit `i % 64` of word `i / 64`.
-/

namespace Reclaim

namespace Word

/-- The empty word has no bit. -/
@[simp]
theorem bit_zero (k : ℕ) : bit 0 k = false := by
  simp [bit]

/-- A word has no bit past the last one. -/
theorem bit_eq_false {w : UInt64} {k : ℕ} (hk : 64 ≤ k) : bit w k = false :=
  BitVec.getLsbD_of_ge _ _ hk

/-- Words with the same bits are the same. -/
theorem eq_of_bit {w w' : UInt64} (h : ∀ k < 64, bit w k = bit w' k) : w = w' := by
  rw [← UInt64.toBitVec_inj]
  exact BitVec.eq_of_getLsbD_eq h

/-- Setting a bit adds its position. -/
theorem bit_or_single (w : UInt64) {k : ℕ} (hk : k < 64) (j : ℕ) :
    bit (w ||| single k) j = (bit w j || decide (j = k)) := by
  unfold bit single
  rw [UInt64.toBitVec_or, BitVec.getLsbD_or, BitVec.getLsbD_twoPow]
  simp [hk, eq_comm]

/-- Clearing a bit removes its position. -/
theorem bit_and_not_single (w : UInt64) {k : ℕ} (hk : k < 64) (j : ℕ) :
    bit (w &&& ~~~single k) j = (bit w j && !decide (j = k)) := by
  rcases Nat.lt_or_ge j 64 with hj | hj
  · -- Below 64 the masks are read off as bit vectors; there is nothing past that.
    unfold bit single
    rw [UInt64.toBitVec_and, UInt64.toBitVec_not, BitVec.getLsbD_and, BitVec.getLsbD_not,
      BitVec.getLsbD_twoPow]
    simp [hk, hj, eq_comm]
  · rw [bit_eq_false hj, bit_eq_false hj, Bool.false_and]

/-- Masking a word keeps the positions from `k` on. -/
theorem bit_and_upFrom (w : UInt64) (k j : ℕ) :
    bit (w &&& upFrom k) j = (bit w j && decide (k ≤ j)) := by
  rcases Nat.lt_or_ge j 64 with hj | hj
  · unfold bit upFrom
    rw [UInt64.toBitVec_and, BitVec.getLsbD_and, BitVec.getLsbD_shiftLeft, BitVec.getLsbD_allOnes]
    rcases Nat.lt_or_ge j k with hjk | hjk
    · simp [hj, hjk]
    · have hlt : j - k < 64 := by omega
      simp [hj, hjk, hlt, Nat.not_lt.mpr hjk]
  · rw [bit_eq_false hj, bit_eq_false hj, Bool.false_and]

/-- A word that is not empty has a bit. -/
theorem exists_bit {w : UInt64} (hw : w ≠ 0) : ∃ k < 64, bit w k = true := by
  by_contra hnone
  apply hw
  rw [← UInt64.toBitVec_inj]
  apply BitVec.eq_of_getLsbD_eq
  intro k hk
  rw [UInt64.toBitVec_zero, BitVec.getLsbD_zero]
  by_contra hbit
  exact hnone ⟨k, hk, Bool.eq_true_of_not_eq_false hbit⟩

/-- `lowest` is the least position of a word that is not empty. -/
theorem lowest_spec {w : UInt64} (hw : w ≠ 0) :
    lowest w < 64 ∧ bit w (lowest w) = true ∧ ∀ j < lowest w, bit w j = false := by
  unfold lowest
  cases hfind : (List.range 64).find? (bit w) with
  | none =>
    obtain ⟨k, hk, hbit⟩ := exists_bit hw
    have hnot := List.find?_eq_none.mp hfind k (List.mem_range.mpr hk)
    exact absurd hbit hnot
  | some k =>
    obtain ⟨hbit, hmem, hleast⟩ := List.find?_range_eq_some.mp hfind
    refine ⟨List.mem_range.mp hmem, hbit, ?_⟩
    intro j hj
    simpa using hleast j hj

end Word

namespace Bitmap

/-- A map has the words for its size, and no bit at or past it. -/
structure WellFormed (b : Bitmap) : Prop where
  /-- There is a word for every 64 numbers. -/
  words_size : b.words.size = (b.size + 63) / 64
  /-- The last word has no bit past the size. -/
  stray : ∀ i, b.size ≤ i → Word.bit (b.word (i / 64)) (i % 64) = false

/-- The set that a map stands for. -/
def toFinset (b : Bitmap) : Finset ℕ := (Finset.range b.size).filter fun i => b.contains i = true

section Basic

variable {b : Bitmap} {i : ℕ}

/-- Members lie below the size. -/
theorem lt_size_of_contains (h : b.contains i = true) : i < b.size := by
  unfold contains at h
  simp only [Bool.and_eq_true, decide_eq_true_eq] at h
  exact h.1

/-- A number at or past the size is no member. -/
theorem contains_eq_false_of_size_le (h : b.size ≤ i) : b.contains i = false := by
  by_contra hc
  have := lt_size_of_contains (Bool.eq_true_of_not_eq_false hc)
  omega

/-- Membership in the set is membership in the map. -/
@[simp]
theorem mem_toFinset : i ∈ b.toFinset ↔ b.contains i = true := by
  unfold toFinset
  rw [Finset.mem_filter, Finset.mem_range]
  exact ⟨fun h => h.2, fun h => ⟨lt_size_of_contains h, h⟩⟩

/-- In a well-formed map, membership is one bit of one word. -/
theorem contains_eq_bit (hb : b.WellFormed) (i : ℕ) :
    b.contains i = Word.bit (b.word (i / 64)) (i % 64) := by
  unfold contains
  rcases Nat.lt_or_ge i b.size with hi | hi
  · simp [hi]
  · rw [hb.stray i hi, Bool.and_false]

/-- The word of a number below the size is there. -/
theorem div_lt_words_size (hb : b.WellFormed) (hi : i < b.size) : i / 64 < b.words.size := by
  rw [hb.words_size]
  omega

/-- Well-formed maps of one size with the same members are the same. -/
theorem WellFormed.eq_of_contains {b b' : Bitmap} (hb : b.WellFormed) (hb' : b'.WellFormed)
    (hsize : b'.size = b.size) (h : ∀ i, b'.contains i = b.contains i) : b' = b := by
  have hwords : b'.words = b.words := by
    refine Array.ext (by rw [hb.words_size, hb'.words_size, hsize]) fun k hk' hk => ?_
    refine Word.eq_of_bit fun j hj => ?_
    -- Bit `j` of word `k` stands for the number `64 * k + j`.
    have hbit := h (64 * k + j)
    rw [contains_eq_bit hb, contains_eq_bit hb'] at hbit
    have hdiv : (64 * k + j) / 64 = k := by omega
    have hmod : (64 * k + j) % 64 = j := by omega
    unfold word at hbit
    rw [hdiv, hmod, Array.getElem?_eq_getElem hk, Array.getElem?_eq_getElem hk'] at hbit
    exact hbit
  cases b
  cases b'
  cases hwords
  cases hsize
  rfl

end Basic

/-! ## Single members -/

/-- The empty map is well formed. -/
theorem wellFormed_empty (size : ℕ) : (empty size).WellFormed where
  words_size := by simp [empty]
  stray i _ := by
    unfold word empty
    rcases Nat.lt_or_ge (i / 64) ((size + 63) / 64) with h | h
    · simp [h]
    · simp [Nat.not_lt.mpr h]

/-- The empty map has its size. -/
@[simp]
theorem size_empty (size : ℕ) : (empty size).size = size := rfl

/-- The empty map has no member. -/
@[simp]
theorem contains_empty (size i : ℕ) : (empty size).contains i = false := by
  rw [contains_eq_bit (wellFormed_empty size)]
  unfold word empty
  rcases Nat.lt_or_ge (i / 64) ((size + 63) / 64) with h | h
  · simp [h]
  · simp [Nat.not_lt.mpr h]

/-- Replacing one word by another that differs from it in one position changes the map in one
number. Both operations on single members are of this form. -/
theorem set_word_spec {b : Bitmap} (hb : b.WellFormed) {i : ℕ} (hi : i < b.size)
    (h : i / 64 < b.words.size) (w : UInt64) (v : Bool)
    (hw : ∀ j, Word.bit w j = if j = i % 64 then v else Word.bit (b.word (i / 64)) j) :
    let b' : Bitmap := { b with words := b.words.set (i / 64) w }
    b'.WellFormed ∧ ∀ j, b'.contains j = if j = i then v else b.contains j := by
  intro b'
  -- Words other than the one replaced are as before.
  have hword : ∀ k, b'.word k = if k = i / 64 then w else b.word k := by
    intro k
    show ((b.words.set (i / 64) w)[k]?).getD 0 = if k = i / 64 then w else b.words[k]?.getD 0
    rw [Array.getElem?_set]
    by_cases hk : k = i / 64
    · rw [if_pos hk, if_pos hk.symm, Option.getD_some]
    · rw [if_neg hk, if_neg fun hk' => hk hk'.symm]
  -- The bit of a number is the new value at `i` and the old bit elsewhere.
  have hbit : ∀ j, Word.bit (b'.word (j / 64)) (j % 64) =
      if j = i then v else Word.bit (b.word (j / 64)) (j % 64) := by
    intro j
    rw [hword]
    by_cases hdiv : j / 64 = i / 64
    · rw [if_pos hdiv, hw, hdiv]
      by_cases hmod : j % 64 = i % 64
      · rw [if_pos hmod, if_pos (by omega)]
      · rw [if_neg hmod, if_neg (by omega)]
    · rw [if_neg hdiv, if_neg (by omega)]
  have hb' : b'.WellFormed := by
    refine ⟨?_, ?_⟩
    · show (b.words.set (i / 64) w).size = (b.size + 63) / 64
      rw [Array.size_set, hb.words_size]
    · intro j hj
      have hj : b.size ≤ j := hj
      rw [hbit, if_neg (by omega)]
      exact hb.stray j hj
  refine ⟨hb', ?_⟩
  intro j
  rw [contains_eq_bit hb', hbit, contains_eq_bit hb]

/-- Inserting a number below the size makes it a member and tells whether it was one before. -/
theorem insert_spec {b : Bitmap} (hb : b.WellFormed) {i : ℕ} (hi : i < b.size) :
    ∃ b', b.insert i = .ok (b.contains i, b') ∧ b'.WellFormed ∧ b'.size = b.size ∧
      ∀ j, b'.contains j = (decide (j = i) || b.contains j) := by
  have h := div_lt_words_size hb hi
  have hword : b.word (i / 64) = b.words[i / 64] := by
    unfold word
    rw [Array.getElem?_eq_getElem h, Option.getD_some]
  obtain ⟨hb', hcontains⟩ := set_word_spec hb hi h (b.words[i / 64] ||| Word.single (i % 64)) true
    (by
      intro j
      rw [Word.bit_or_single _ (Nat.mod_lt _ (by omega)), hword]
      by_cases hj : j = i % 64 <;> simp [hj])
  refine ⟨_, ?_, hb', rfl, ?_⟩
  · unfold insert
    rw [dif_pos h, contains_eq_bit hb, hword]
  · intro j
    rw [hcontains]
    by_cases hj : j = i <;> simp [hj]

/-- Erasing a number below the size takes its membership and tells whether it was a member. -/
theorem erase_spec {b : Bitmap} (hb : b.WellFormed) {i : ℕ} (hi : i < b.size) :
    ∃ b', b.erase i = .ok (b.contains i, b') ∧ b'.WellFormed ∧ b'.size = b.size ∧
      ∀ j, b'.contains j = (!decide (j = i) && b.contains j) := by
  have h := div_lt_words_size hb hi
  have hword : b.word (i / 64) = b.words[i / 64] := by
    unfold word
    rw [Array.getElem?_eq_getElem h, Option.getD_some]
  obtain ⟨hb', hcontains⟩ := set_word_spec hb hi h (b.words[i / 64] &&& ~~~Word.single (i % 64))
    false
    (by
      intro j
      rw [Word.bit_and_not_single _ (Nat.mod_lt _ (by omega)), hword]
      by_cases hj : j = i % 64 <;> simp [hj])
  refine ⟨_, ?_, hb', rfl, ?_⟩
  · unfold erase
    rw [dif_pos h, contains_eq_bit hb, hword]
  · intro j
    rw [hcontains]
    by_cases hj : j = i <;> simp [hj]

/-! ## The least member of a range -/

/-- `r` is the least member of a map from `start` on and below `stop`, or `stop` if there is
none. -/
structure IsNext (b : Bitmap) (start stop r : ℕ) : Prop where
  /-- The answer does not pass the end of the range. -/
  le_stop : r ≤ stop
  /-- No member of the range lies before the answer. -/
  before : ∀ i, start ≤ i → i < r → b.contains i = false
  /-- An answer before the end is a member of the range. -/
  found : r < stop → start ≤ r ∧ b.contains r = true

/-- `w` is the word of a map at index `k`, less the numbers before `start`. -/
def IsWordFrom (b : Bitmap) (start k : ℕ) (w : UInt64) : Prop :=
  ∀ j < 64, Word.bit w j = true ↔ start ≤ 64 * k + j ∧ b.contains (64 * k + j) = true

section NextWord

variable {b : Bitmap} {start stop k : ℕ} {w : UInt64}

/-- The word that a range starts in, with the bits before the start masked out. -/
theorem isWordFrom_first (hb : b.WellFormed) (start : ℕ) :
    b.IsWordFrom start (start / 64) (b.word (start / 64) &&& Word.upFrom (start % 64)) := by
  intro j hj
  rw [Word.bit_and_upFrom, contains_eq_bit hb,
    show (64 * (start / 64) + j) / 64 = start / 64 by omega,
    show (64 * (start / 64) + j) % 64 = j by omega, Bool.and_eq_true, decide_eq_true_eq, and_comm]
  refine and_congr_left fun _ => ?_
  omega

/-- A word behind the start of the range has nothing masked out. -/
theorem isWordFrom_next (hb : b.WellFormed) (hstart : start ≤ 64 * k) :
    b.IsWordFrom start k (b.word k) := by
  intro j hj
  rw [contains_eq_bit hb, show (64 * k + j) / 64 = k by omega, show (64 * k + j) % 64 = j by omega]
  exact ⟨fun h => ⟨by omega, h⟩, fun h => h.2⟩

/-- An empty word holds no member of the range. -/
theorem none_in_empty_word (hw : b.IsWordFrom start k 0)
    (hbefore : ∀ i, start ≤ i → i < 64 * k → b.contains i = false) :
    ∀ i, start ≤ i → i < 64 * (k + 1) → b.contains i = false := by
  intro i hi hlt
  rcases Nat.lt_or_ge i (64 * k) with h | h
  · exact hbefore i hi h
  · -- A number behind the words before lies in this one, which has no bit.
    have hbit := hw (i - 64 * k) (by omega)
    rw [show 64 * k + (i - 64 * k) = i by omega, Word.bit_zero] at hbit
    by_contra hc
    exact Bool.false_ne_true (hbit.mpr ⟨hi, Bool.eq_true_of_not_eq_false hc⟩)

/-- The lowest bit of the first word that has one is the least member of the range. -/
theorem isNext_lowest (hne : w ≠ 0) (hw : b.IsWordFrom start k w)
    (hbefore : ∀ i, start ≤ i → i < 64 * k → b.contains i = false) :
    b.IsNext start stop (min (64 * k + Word.lowest w) stop) := by
  obtain ⟨hlt, hbit, hleast⟩ := Word.lowest_spec hne
  refine ⟨Nat.min_le_right _ _, ?_, ?_⟩
  · intro i hi hir
    rcases Nat.lt_or_ge i (64 * k) with h | h
    · exact hbefore i hi h
    · -- A member in the same word would be a bit below the lowest one.
      have hj := hleast (i - 64 * k) (by omega)
      by_contra hc
      have hset := (hw (i - 64 * k) (by omega)).mpr
        (by
          rw [show 64 * k + (i - 64 * k) = i by omega]
          exact ⟨hi, Bool.eq_true_of_not_eq_false hc⟩)
      rw [hj] at hset
      exact Bool.false_ne_true hset
  · intro hr
    rw [Nat.min_eq_left (by omega)]
    exact (hw _ hlt).mp hbit

/-- The walk over the words finds the least member. It stands at the word `w` of index `k`, has
found no member in the words before, and the words that are left reach the end of the range. -/
theorem nextWord_spec (hb : b.WellFormed) :
    ∀ (left k : ℕ) (w : UInt64), start < 64 * (k + 1) → stop ≤ 64 * (k + left + 1) →
      b.IsWordFrom start k w → (∀ i, start ≤ i → i < 64 * k → b.contains i = false) →
      b.IsNext start stop (b.nextWord stop left k w) := by
  intro left
  induction left with
  | zero =>
    intro k w _ hstop hw hbefore
    unfold nextWord
    dsimp only
    split_ifs with hne
    · exact isNext_lowest hne hw hbefore
    · rw [not_ne_iff.mp hne] at hw
      have hnone := none_in_empty_word hw hbefore
      exact ⟨le_rfl, fun i hi hlt => hnone i hi (by omega), fun h => absurd h (lt_irrefl _)⟩
  | succ left ih =>
    intro k w hstart hstop hw hbefore
    unfold nextWord
    dsimp only
    split_ifs with hne hend
    · exact isNext_lowest hne hw hbefore
    · rw [not_ne_iff.mp hne] at hw
      have hnone := none_in_empty_word hw hbefore
      exact ⟨le_rfl, fun i hi hlt => hnone i hi (by omega), fun h => absurd h (lt_irrefl _)⟩
    · -- The word has nothing to offer, and the range goes on in the next one.
      rw [not_ne_iff.mp hne] at hw
      exact ih (k + 1) (b.word (k + 1)) (by omega) (by omega) (isWordFrom_next hb (by omega))
        (none_in_empty_word hw hbefore)

end NextWord

/-- `next` is the least member of the range, as far as the range lies within the map. -/
theorem next_spec {b : Bitmap} (hb : b.WellFormed) (start stop : ℕ) :
    b.IsNext start (min stop b.size) (b.next start stop) := by
  unfold next
  dsimp only
  split_ifs with h
  · exact ⟨le_rfl, fun i hi hlt => absurd hi (by omega), fun hlt => absurd hlt (lt_irrefl _)⟩
  · have hwords := hb.words_size
    exact nextWord_spec hb _ _ _ (by omega) (by omega) (isWordFrom_first hb start)
      (fun i hi hlt => absurd hi (by omega))

/-! ## The members in order -/

/-- The members from `start` on are listed, provided that enough of them are asked for. -/
theorem mem_members {b : Bitmap} (hb : b.WellFormed) :
    ∀ (left start : ℕ), b.size ≤ start + left →
      ∀ i, i ∈ b.members left start ↔ start ≤ i ∧ b.contains i = true := by
  intro left
  induction left with
  | zero =>
    intro start hleft i
    unfold members
    refine ⟨fun h => absurd h (List.not_mem_nil), ?_⟩
    rintro ⟨hi, hc⟩
    have := lt_size_of_contains hc
    omega
  | succ left ih =>
    intro start hleft i
    unfold members
    obtain ⟨-, hbefore, hfound⟩ := next_spec hb start b.size
    rw [Nat.min_self] at hfound
    generalize b.next start b.size = r at hbefore hfound ⊢
    dsimp only
    split_ifs with hr
    · -- The search has run off the map, so there is no member left.
      refine ⟨fun h => absurd h (List.not_mem_nil), ?_⟩
      rintro ⟨hi, hc⟩
      have hlt := lt_size_of_contains hc
      rw [hbefore i hi (by omega)] at hc
      exact absurd hc Bool.false_ne_true
    · obtain ⟨hsr, hcr⟩ := hfound (by omega)
      -- The list goes on behind `r`, and nothing lies between the start and `r`.
      rw [List.mem_cons, ih (r + 1) (by omega)]
      constructor
      · rintro (rfl | ⟨hi, hc⟩)
        · exact ⟨hsr, hcr⟩
        · exact ⟨by omega, hc⟩
      · rintro ⟨hi, hc⟩
        rcases Nat.lt_trichotomy i r with h | h | h
        · rw [hbefore i hi h] at hc
          exact absurd hc Bool.false_ne_true
        · exact Or.inl h
        · exact Or.inr ⟨h, hc⟩

/-- The members from `start` on are listed in ascending order. -/
theorem members_sorted {b : Bitmap} (hb : b.WellFormed) :
    ∀ (left start : ℕ), (∀ i ∈ b.members left start, start ≤ i) ∧
      (b.members left start).Pairwise (· < ·) := by
  intro left
  induction left with
  | zero =>
    intro start
    unfold members
    exact ⟨fun i hi => absurd hi (List.not_mem_nil), List.Pairwise.nil⟩
  | succ left ih =>
    intro start
    unfold members
    obtain ⟨-, -, hfound⟩ := next_spec hb start b.size
    rw [Nat.min_self] at hfound
    generalize b.next start b.size = r at hfound ⊢
    dsimp only
    split_ifs with hr
    · exact ⟨fun i hi => absurd hi (List.not_mem_nil), List.Pairwise.nil⟩
    · obtain ⟨hsr, -⟩ := hfound (by omega)
      -- What comes after `r` lies behind it, by the first half of the statement.
      obtain ⟨hmem, hsorted⟩ := ih (r + 1)
      refine ⟨?_, List.pairwise_cons.mpr ⟨fun i hi => hmem i hi, hsorted⟩⟩
      intro i hi
      rcases List.mem_cons.mp hi with rfl | hi
      · exact hsr
      · have := hmem i hi
        omega

/-- The list of a map has its members. -/
theorem mem_toList {b : Bitmap} (hb : b.WellFormed) (i : ℕ) :
    i ∈ b.toList ↔ b.contains i = true := by
  unfold toList
  rw [mem_members hb b.size 0 (by omega)]
  exact ⟨fun h => h.2, fun h => ⟨Nat.zero_le i, h⟩⟩

/-- The list of a map is in ascending order. -/
theorem toList_sorted {b : Bitmap} (hb : b.WellFormed) : b.toList.Pairwise (· < ·) :=
  (members_sorted hb b.size 0).2

/-- The list of a map names each member once. -/
theorem toList_nodup {b : Bitmap} (hb : b.WellFormed) : b.toList.Nodup :=
  (toList_sorted hb).imp fun h => ne_of_lt h

/-- The list of a map is its set. -/
theorem toList_toFinset {b : Bitmap} (hb : b.WellFormed) : b.toList.toFinset = b.toFinset := by
  ext i
  rw [List.mem_toFinset, mem_toList hb, mem_toFinset]

/-! ## The number of members -/

/-- Counting below a multiple of 64 is counting word by word. -/
theorem countP_range_words (p : ℕ → Bool) (n : ℕ) :
    (List.range (64 * n)).countP p =
      (List.range n).foldl (fun c k => c + (List.range 64).countP fun j => p (64 * k + j)) 0 := by
  induction n with
  | zero => rfl
  | succ n ih =>
    rw [Nat.mul_succ, List.range_add, List.countP_append, ih, List.countP_map,
      List.range_succ (n := n), List.foldl_append]
    rfl

/-- `card` is the number of members. -/
theorem card_eq {b : Bitmap} (hb : b.WellFormed) : b.card = b.toFinset.card := by
  have hwords : b.words.toList = (List.range b.words.size).map b.word := by
    apply List.ext_getElem
    · simp
    · intro k h₁ h₂
      have hk : k < b.words.size := by simpa using h₁
      have hword : b.word k = b.words[k] := by
        unfold word
        rw [Array.getElem?_eq_getElem hk, Option.getD_some]
      rw [List.getElem_map, List.getElem_range, hword, Array.getElem_toList]
  have hpop : ∀ k, Word.population (b.word k) =
      (List.range 64).countP fun j => b.contains (64 * k + j) := by
    intro k
    unfold Word.population
    apply List.countP_congr
    intro j hj
    have hj := List.mem_range.mp hj
    rw [contains_eq_bit hb, show (64 * k + j) / 64 = k by omega,
      show (64 * k + j) % 64 = j by omega]
  have hset :
      b.toFinset = (Finset.range (64 * b.words.size)).filter fun i => b.contains i = true := by
    ext i
    rw [mem_toFinset, Finset.mem_filter, Finset.mem_range]
    refine ⟨fun h => ⟨?_, h⟩, fun h => h.2⟩
    have hi := lt_size_of_contains h
    have := hb.words_size
    omega
  calc b.card =
      (List.range b.words.size).foldl (fun c k => c + Word.population (b.word k)) 0 := by
        unfold card
        rw [← Array.foldl_toList, hwords, List.foldl_map]
    _ = (List.range (64 * b.words.size)).countP b.contains := by
        rw [countP_range_words]
        simp only [hpop]
    _ = ((List.range (64 * b.words.size)).toFinset.filter fun i => b.contains i = true).card := by
        rw [List.Nodup.card_eq_countP List.nodup_range]
        simp
    _ = b.toFinset.card := by
        rw [hset]
        congr 1
        ext i
        simp

end Bitmap

end Reclaim
