import Mathlib.Order.Bounds.Defs
import Reclaim.Proofs.Bitmap
import Reclaim.Proofs.Guarded
import Reclaim.Proofs.Since

/-!
# Bitmaps after any sequence of edits

A bitmap that begins empty and takes any sequence of insertions and erasures of numbers below its
size stands for the set of the numbers that have been inserted and not erased since
(`edited`, `mem_edited`). One edit answers whether its number was in the set and leaves the bitmap
standing for the set after it (`StandsFor.edit`), and so does a sequence (`StandsFor.editAll`). All
questions to the bitmap are then answered from the set alone (`editAll_stands_for_edited`). The
enumeration of the members is told call by call (`calls`): it yields the members in ascending order,
once each, and nothing ever after.
-/

namespace Reclaim.Bitmap

/-- A change of one member. -/
inductive Edit where
  /-- Adds a number. -/
  | insert (i : ℕ)
  /-- Removes a number. -/
  | erase (i : ℕ)

namespace Edit

/-- The number that an edit is about. -/
def index : Edit → ℕ
  | insert i => i
  | erase i => i

/-- What an edit makes of a set. -/
def apply (S : Finset ℕ) : Edit → Finset ℕ
  | insert i => Insert.insert i S
  | erase i => S.erase i

end Edit

/-- Makes an edit of a map, telling whether its number was a member before. -/
def edit (b : Bitmap) : Edit → Guarded (Bool × Bitmap)
  | .insert i => b.insert i
  | .erase i => b.erase i

/-- Makes each of a list of edits, the first one first. -/
def editAll (b : Bitmap) (edits : List Edit) : Guarded Bitmap :=
  edits.foldlM (fun b e => do
    let (_, b) ← b.edit e
    return b) b

/-- The set after each of a list of edits, from the empty one on. -/
def edited (edits : List Edit) : Finset ℕ := edits.foldl Edit.apply ∅

variable {b : Bitmap} {size i : ℕ} {S : Finset ℕ} {edits : List Edit} {e : Edit}

/-- The set after some edits has the numbers that have been inserted and not erased since. -/
theorem mem_edited : i ∈ edited edits ↔ Since (· ≠ .erase i) (· = .insert i) edits := by
  unfold edited
  induction edits using List.reverseRecOn with
  | nil => simp
  | append_singleton edits e ih =>
    rw [List.foldl_append, List.foldl_cons, List.foldl_nil, since_concat, ← ih]
    cases e with
    | insert j => simp [Edit.apply, eq_comm]
    | erase j => simp [Edit.apply, eq_comm, and_comm]

/-! ## One edit after the other -/

/-- A well-formed map of a size that has exactly the members of a set. -/
structure StandsFor (b : Bitmap) (size : ℕ) (S : Finset ℕ) : Prop where
  /-- The map is well formed. -/
  wellFormed : b.WellFormed
  /-- The map has the size. -/
  size_eq : b.size = size
  /-- The members are those of the set. -/
  contains_iff : ∀ i, b.contains i = true ↔ i ∈ S

/-- The empty map stands for the empty set. -/
theorem standsFor_empty (size : ℕ) : (empty size).StandsFor size ∅ where
  wellFormed := wellFormed_empty size
  size_eq := rfl
  contains_iff := by simp

/-- An edit below the size tells whether its number was in the set, and the map stands for the set
after it. -/
theorem StandsFor.edit (h : b.StandsFor size S) (he : e.index < size) :
    ∃ b', b.edit e = .ok (decide (e.index ∈ S), b') ∧ b'.StandsFor size (e.apply S) := by
  have hanswer : b.contains e.index = decide (e.index ∈ S) := by
    rw [Bool.eq_iff_iff, decide_eq_true_eq]
    exact h.contains_iff e.index
  rw [← h.size_eq] at he
  rw [← hanswer]
  cases e with
  | insert i =>
    obtain ⟨b', hinsert, hb', hsize, hcontains⟩ := insert_spec h.wellFormed (i := i) he
    refine ⟨b', hinsert, hb', hsize.trans h.size_eq, fun j => ?_⟩
    simp [hcontains, h.contains_iff, Edit.apply]
  | erase i =>
    obtain ⟨b', herase, hb', hsize, hcontains⟩ := erase_spec h.wellFormed (i := i) he
    refine ⟨b', herase, hb', hsize.trans h.size_eq, fun j => ?_⟩
    simp [hcontains, h.contains_iff, Edit.apply]

/-- One more edit is made of the map after the others. -/
theorem editAll_concat {b₁ : Bitmap} (hall : b.editAll edits = .ok b₁) :
    b.editAll (edits ++ [e]) = (do
      let (_, b') ← b₁.edit e
      return b') := by
  unfold editAll at hall ⊢
  rw [List.foldlM_append, hall, Guarded.ok_bind, List.foldlM_cons]
  simp only [List.foldlM_nil, bind_pure]

/-- After edits below the size the map stands for the set after them. -/
theorem exists_editAll (hedits : ∀ e ∈ edits, e.index < size) :
    ∃ b, (empty size).editAll edits = .ok b ∧ b.StandsFor size (edited edits) := by
  induction edits using List.reverseRecOn with
  | nil => exact ⟨_, rfl, standsFor_empty size⟩
  | append_singleton edits e ih =>
    obtain ⟨b, hall, hb⟩ := ih fun e he => hedits e (List.mem_append_left _ he)
    obtain ⟨b', hedit, hb'⟩ := hb.edit (e := e) (hedits e (by simp))
    refine ⟨b', by rw [editAll_concat hall, hedit]; rfl, ?_⟩
    unfold edited at hb' ⊢
    rw [List.foldl_append]
    exact hb'

/-! ## Questions to a map -/

/-- A map that stands for a set has as many members. -/
theorem StandsFor.card_eq (h : b.StandsFor size S) : b.card = S.card := by
  rw [Bitmap.card_eq h.wellFormed]
  congr 1
  ext i
  rw [mem_toFinset, h.contains_iff]

/-- The least member of a range is found if there is one. -/
theorem StandsFor.isLeast_next (h : b.StandsFor size S) {start stop : ℕ}
    (hmember : ∃ i ∈ S, start ≤ i ∧ i < min stop size) :
    IsLeast {i | i ∈ S ∧ start ≤ i ∧ i < min stop size} (b.next start stop) := by
  obtain ⟨hle, hbefore, hfound⟩ := next_spec h.wellFormed start stop
  rw [h.size_eq] at hle hfound
  -- No member of the range lies before the answer, so the answer lies in the range.
  have hleast : ∀ i, i ∈ S → start ≤ i → b.next start stop ≤ i := by
    intro i hi hstart
    by_contra hlt
    rw [← h.contains_iff, hbefore i hstart (Nat.lt_of_not_le hlt)] at hi
    cases hi
  obtain ⟨i, hi, hstart, hstop⟩ := hmember
  have hin : b.next start stop < min stop size := (hleast i hi hstart).trans_lt hstop
  obtain ⟨hle', hcontains⟩ := hfound hin
  exact ⟨⟨(h.contains_iff _).mp hcontains, hle', hin⟩, fun j hj => hleast j hj.1 hj.2.1⟩

/-- If a range has no member, the end of the range is answered. -/
theorem StandsFor.next_eq_stop (h : b.StandsFor size S) {start stop : ℕ}
    (hnone : ∀ i ∈ S, start ≤ i → min stop size ≤ i) : b.next start stop = min stop size := by
  obtain ⟨hle, -, hfound⟩ := next_spec h.wellFormed start stop
  rw [h.size_eq] at hle hfound
  by_contra hne
  obtain ⟨hstart, hcontains⟩ := hfound (Nat.lt_of_le_of_ne hle hne)
  exact hne (hle.antisymm (hnone _ ((h.contains_iff _).mp hcontains) hstart))

/-- The answers of a number of calls of the enumeration that stands at `start`: each call answers
with the next member and goes on behind it, or answers that there is none and stays. -/
def calls (b : Bitmap) : ℕ → ℕ → List (Option ℕ)
  | 0, _ => []
  | n + 1, start =>
    let i := b.next start b.size
    if b.size ≤ i then none :: calls b n start else some i :: calls b n (i + 1)

/-- Behind the last member every call answers that there is none. -/
theorem calls_of_size_le {start : ℕ} (hend : b.size ≤ b.next start b.size) (n : ℕ) :
    b.calls n start = List.replicate n none := by
  induction n with
  | zero => rfl
  | succ n ih =>
    unfold calls
    dsimp only
    rw [if_pos hend, ih, List.replicate_succ]

/-- The calls of the enumeration answer with the members that are listed, each one once, and with
none from then on. -/
theorem calls_eq (hb : b.WellFormed) (n : ℕ) : ∀ {left start : ℕ}, b.size ≤ start + left →
    b.calls n start = ((b.members left start).map some ++ List.replicate n none).take n := by
  induction n with
  | zero => exact fun _ => rfl
  | succ n ih =>
    intro left start hleft
    obtain ⟨-, -, hfound⟩ := next_spec hb start b.size
    rw [Nat.min_self] at hfound
    by_cases hend : b.size ≤ b.next start b.size
    · have hnone : b.members left start = [] := by
        cases left with
        | zero => rfl
        | succ left =>
          unfold members
          exact if_pos hend
      rw [calls_of_size_le hend, hnone]
      simp
    · obtain ⟨hstart, -⟩ := hfound (Nat.lt_of_not_le hend)
      -- There is a member left, so at least one more is asked for.
      obtain ⟨left, rfl⟩ : ∃ k, left = k + 1 := ⟨left - 1, by omega⟩
      have hpad : ∀ answers : List (Option ℕ), (answers ++ List.replicate (n + 1) none).take n =
          (answers ++ List.replicate n none).take n := by
        intro answers
        rw [List.replicate_succ', ← List.append_assoc]
        exact List.take_append_of_le_length (by simp)
      unfold calls members
      dsimp only
      rw [if_neg hend, if_neg hend, ih (show b.size ≤ b.next start b.size + 1 + left by omega),
        List.map_cons, List.cons_append, List.take_succ_cons, hpad]

/-- After any sequence of insertions and erasures of numbers below the size, a map that was empty
answers as the set of the numbers that have been inserted and not erased since: `contains` is
membership, a further edit tells whether its number is in the set and goes on from there, `card` is
the number of members, `toList` lists them in ascending order, each once, the calls of the
enumeration answer with that list and with none from then on, and `next` is the least member of a
range, or the end of the range within the map if there is none. -/
theorem editAll_stands_for_edited (hedits : ∀ e ∈ edits, e.index < size) :
    ∃ b, (empty size).editAll edits = .ok b ∧
      (∀ i, i ∈ edited edits ↔ Since (· ≠ .erase i) (· = .insert i) edits) ∧
      (∀ i, b.contains i = decide (i ∈ edited edits)) ∧
      (∀ e, e.index < size → ∃ b', b.edit e = .ok (decide (e.index ∈ edited edits), b') ∧
        (empty size).editAll (edits ++ [e]) = .ok b') ∧
      b.card = (edited edits).card ∧
      (∀ i, i ∈ b.toList ↔ i ∈ edited edits) ∧ b.toList.Pairwise (· < ·) ∧
      (∀ n, b.calls n 0 = (b.toList.map some ++ List.replicate n none).take n) ∧
      ∀ start stop, ((∃ i ∈ edited edits, start ≤ i ∧ i < min stop size) →
          IsLeast {i | i ∈ edited edits ∧ start ≤ i ∧ i < min stop size} (b.next start stop)) ∧
        ((∀ i ∈ edited edits, start ≤ i → min stop size ≤ i) →
          b.next start stop = min stop size) := by
  obtain ⟨b, hall, hb⟩ := exists_editAll hedits
  refine ⟨b, hall, fun _ => mem_edited, fun i => ?_, fun e he => ?_, hb.card_eq, fun i => ?_,
    toList_sorted hb.wellFormed, fun n => calls_eq hb.wellFormed n (by omega),
    fun start stop => ⟨hb.isLeast_next, hb.next_eq_stop⟩⟩
  · rw [Bool.eq_iff_iff, decide_eq_true_eq]
    exact hb.contains_iff i
  · obtain ⟨b', hedit, -⟩ := hb.edit he
    exact ⟨b', hedit, by rw [editAll_concat hall, hedit]; rfl⟩
  · rw [mem_toList hb.wellFormed]
    exact hb.contains_iff i

/-- Insertions into both words of a map of 70 numbers, one of them taken back. -/
def acrossWords : List Edit := [.insert 69, .insert 3, .insert 64, .erase 3, .insert 0]

/-- The members that `acrossWords` leaves are found across the words. -/
theorem editAll_stands_for_edited_words : (∀ e ∈ acrossWords, e.index < 70) ∧
    ∃ b, (empty 70).editAll acrossWords = .ok b ∧ b.contains 3 = false ∧ b.card = 3 ∧
      b.next 1 66 = 64 ∧ b.next 65 69 = 69 ∧ b.next 70 200 = 70 := by
  have hedits : ∀ e ∈ acrossWords, e.index < 70 := by decide
  obtain ⟨b, hall, -, hcontains, -, hcard, -, -, -, hnext⟩ := editAll_stands_for_edited hedits
  have hset : edited acrossWords = {0, 64, 69} := by decide
  rw [hset] at hcontains hcard hnext
  obtain ⟨hmem, hstart, hstop⟩ := ((hnext 1 66).1 ⟨64, by decide, by decide, by decide⟩).1
  refine ⟨hedits, b, hall, hcontains 3, hcard, ?_, (hnext 65 69).2 (by decide),
    (hnext 70 200).2 (by decide)⟩
  simp only [Finset.mem_insert, Finset.mem_singleton] at hmem
  omega

end Reclaim.Bitmap
