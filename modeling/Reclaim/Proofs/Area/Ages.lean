import Reclaim.Proofs.Area.Table

/-!
# The age of a segment and the times of its writes

A write pulls the age of a segment towards its own time, so the age stays between what it was and
that time (`mean_between`); the first write into a segment without a live block sets it. Along any
sequence of writes and drops the age is therefore between two of the times that were written since
any moment at which no block was live (`Spans.markAll`). If every time has 48 bits and a segment at
most `2 ^ 16` blocks, the sum behind an average always has room in 64 bits (`Dated.mark`), so the
marks go through to the end (`age_within_writes`).
-/

namespace Reclaim

/-- An average that is pulled towards a number stays between the two. -/
theorem mean_between (m n now : ℕ) :
    min m now ≤ (m * n + now) / (n + 1) ∧ (m * n + now) / (n + 1) ≤ max m now := by
  constructor
  · rw [Nat.le_div_iff_mul_le (Nat.succ_pos n)]
    calc min m now * (n + 1) = min m now * n + min m now := Nat.mul_succ _ n
      _ ≤ m * n + now :=
        Nat.add_le_add (Nat.mul_le_mul_right n (Nat.min_le_left m now)) (Nat.min_le_right m now)
  · apply Nat.div_le_of_le_mul
    calc m * n + now ≤ max m now * n + max m now :=
        Nat.add_le_add (Nat.mul_le_mul_right n (Nat.le_max_left m now)) (Nat.le_max_right m now)
      _ = (n + 1) * max m now := by rw [Nat.add_mul, Nat.one_mul, Nat.mul_comm n]

namespace Segment

/-- A change of one block of a segment. -/
inductive Mark where
  /-- Makes the block at an offset live at a time. -/
  | fill (off now : ℕ)
  /-- Makes the block at an offset dead. -/
  | drop (off : ℕ)

namespace Mark

/-- A mark of a block of a segment of `blocks` blocks, at a time of 48 bits. -/
def Fits (blocks : ℕ) : Mark → Prop
  | fill off now => off < blocks ∧ now < 2 ^ 48
  | drop off => off < blocks

/-- Whether a mark changes a segment: a write finds the block dead, a drop finds it live. -/
def changes (s : Segment) : Mark → Bool
  | fill off _ => !s.isLive off
  | drop off => s.isLive off

/-- The time of a mark that wrote a block, by its answer. -/
def writes : Mark → Bool → List ℕ
  | fill _ now, true => [now]
  | _, _ => []

end Mark

/-- Makes a mark, telling whether it changed the segment. -/
def mark (s : Segment) : Mark → Guarded (Bool × Segment)
  | .fill off now => s.fill off now
  | .drop off => s.drop off

/-- Makes each of a list of marks, telling of each whether it changed the segment. -/
def markAll (s : Segment) : List Mark → Guarded (List Bool × Segment)
  | [] => return ([], s)
  | m :: rest => do
    let (changed, s) ← s.mark m
    let (answers, s) ← s.markAll rest
    return (changed :: answers, s)

/-- The times of the marks that wrote a block, by their answers. -/
def writeTimes (marks : List Mark) (answers : List Bool) : List ℕ :=
  (List.zipWith Mark.writes marks answers).flatten

variable {s s' : Segment} {blocks off now : ℕ} {m : Mark} {changed : Bool}

/-! ## One mark -/

/-- Dropping a block leaves the age of a segment alone. -/
theorem mtime_of_drop (h : s.drop off = .ok (changed, s')) : s'.mtime = s.mtime := by
  rcases drop_cases h with ⟨-, rfl⟩ | ⟨-, map, rfl⟩
  · rfl
  · rfl

/-- A mark that answers that it changed nothing did so. -/
theorem eq_of_mark (h : s.mark m = .ok (false, s')) : s' = s := by
  cases m with
  | fill off now => exact ((fill_cases h).resolve_right fun h => Bool.false_ne_true h.1).2
  | drop off => exact ((drop_cases h).resolve_right fun h => Bool.false_ne_true h.1).2

/-- Writing a block that is dead goes through if the sum behind the average has room in 64 bits. -/
theorem fill_in_room (hs : s.WellFormed blocks) (hoff : off < blocks)
    (hdead : s.isLive off = false) (hroom : s.mtime * s.live + now < 2 ^ 64) :
    ∃ s', s.fill off now = .ok (true, s') ∧ s'.WellFormed blocks := by
  rcases fill_spec hs hoff hdead now with htrap | ⟨s', hfill, hs', -⟩
  · -- The only step that can stop a write is the check of that sum.
    have hcontains : s.map.contains off = false := hdead
    obtain ⟨map, hinsert, -⟩ := Bitmap.insert_spec hs.map
      (show off < s.map.size by rw [hs.map_size]; exact hoff)
    unfold fill at htrap
    rw [hinsert, hcontains, Guarded.ok_bind] at htrap
    dsimp only at htrap
    rw [if_neg Bool.false_ne_true, Guarded.fit64_eq hroom] at htrap
    cases htrap
  · exact ⟨s', hfill, hs'⟩

/-- A segment with a dead block counts fewer live ones than it has blocks. -/
theorem live_lt (hs : s.WellFormed blocks) (hoff : off < blocks) (hdead : s.isLive off = false) :
    s.live < blocks := by
  rw [hs.live_eq, ← hs.map_size]
  calc s.map.toFinset.card < (Finset.range s.map.size).card := by
        refine Finset.card_lt_card (Finset.filter_ssubset.mpr ⟨off, ?_, ?_⟩)
        · rw [Finset.mem_range, hs.map_size]
          exact hoff
        · rw [Bool.not_eq_true]
          exact hdead
    _ = s.map.size := Finset.card_range _

/-- A segment that counts its live blocks and has an age of 48 bits if there are any. -/
structure Dated (s : Segment) (blocks : ℕ) : Prop extends s.WellFormed blocks where
  /-- The age of live blocks has 48 bits. -/
  age : s.live = 0 ∨ s.mtime < 2 ^ 48

/-- With times of 48 bits the sum behind an average has room in 64 bits if a segment has at most
`2 ^ 16` blocks and one of them is dead. -/
theorem Dated.room (hs : s.Dated blocks) (hblocks : blocks ≤ 2 ^ 16) (hoff : off < blocks)
    (hdead : s.isLive off = false) (hnow : now < 2 ^ 48) : s.mtime * s.live + now < 2 ^ 64 := by
  rcases hs.age with hzero | hage
  · rw [hzero, Nat.mul_zero, Nat.zero_add]
    exact hnow.trans (by decide)
  · have hlive := live_lt hs.toWellFormed hoff hdead
    calc s.mtime * s.live + now < 2 ^ 48 * (2 ^ 16 - 1) + 2 ^ 48 :=
          Nat.add_lt_add_of_le_of_lt (Nat.mul_le_mul hage.le (by omega)) hnow
      _ = 2 ^ 64 := by decide

/-- A mark at a time of 48 bits goes through, tells whether it changed the segment, and leaves the
age in 48 bits. -/
theorem Dated.mark (hs : s.Dated blocks) (hblocks : blocks ≤ 2 ^ 16) (hm : m.Fits blocks) :
    ∃ s', s.mark m = .ok (m.changes s, s') ∧ s'.Dated blocks := by
  cases m with
  | fill off now =>
    obtain ⟨hoff, hnow⟩ := hm
    unfold Segment.mark Mark.changes
    dsimp only
    cases hlive : s.isLive off with
    | true => exact ⟨s, fill_of_isLive hs.toWellFormed hlive now, hs⟩
    | false =>
      obtain ⟨s', hfill, hs'⟩ := fill_in_room hs.toWellFormed hoff hlive
        (hs.room hblocks hoff hlive hnow)
      obtain ⟨-, map, rfl⟩ := (fill_cases hfill).resolve_left fun h => nomatch h.1
      refine ⟨_, hfill, hs', Or.inr ?_⟩
      dsimp only
      rcases hs.age with hzero | hage
      · -- The first write sets the age.
        rw [hzero, Nat.mul_zero, Nat.zero_add, Nat.zero_add, Nat.div_one]
        exact hnow
      · exact (mean_between _ _ _).2.trans_lt (max_lt hage hnow)
  | drop off =>
    obtain ⟨s', hdrop, hs', hlive, -⟩ := drop_spec hs.toWellFormed (show off < blocks from hm)
    refine ⟨s', hdrop, hs', ?_⟩
    rw [hlive, mtime_of_drop hdrop]
    exact hs.age.imp_left fun hzero => by rw [hzero, Nat.zero_sub]

/-! ## Writes since a segment had no live block -/

/-- The age of a segment lies between two of some times; if there is none yet, no block is live. -/
structure Spans (s : Segment) (times : List ℕ) : Prop where
  /-- Without a time no block is live. -/
  empty : times = [] → s.live = 0
  /-- Some time is not above the age. -/
  below : times ≠ [] → ∃ t ∈ times, t ≤ s.mtime
  /-- Some time is not below the age. -/
  above : times ≠ [] → ∃ t ∈ times, s.mtime ≤ t

variable {times : List ℕ} {marks : List Mark} {answers : List Bool}

/-- A mark keeps the age between the times, its own included if it writes. -/
theorem Spans.mark (hs : s.Spans times) (h : s.mark m = .ok (changed, s')) :
    s'.Spans (times ++ m.writes changed) := by
  cases m with
  | drop off =>
    rw [show (Mark.drop off).writes changed = [] from rfl, List.append_nil]
    rcases drop_cases h with ⟨-, rfl⟩ | ⟨-, map, rfl⟩
    · exact hs
    · exact ⟨fun htimes => by rw [hs.empty htimes], hs.below, hs.above⟩
  | fill off now =>
    rcases fill_cases h with ⟨rfl, rfl⟩ | ⟨rfl, map, rfl⟩
    · rw [show (Mark.fill off now).writes false = [] from rfl, List.append_nil]
      exact hs
    · rw [show (Mark.fill off now).writes true = [now] from rfl]
      have hmem : now ∈ times ++ [now] := List.mem_append_right _ (List.mem_singleton_self now)
      have hfirst : times = [] → (s.mtime * s.live + now) / (s.live + 1) = now := by
        intro htimes
        rw [hs.empty htimes, Nat.mul_zero, Nat.zero_add, Nat.zero_add, Nat.div_one]
      obtain ⟨hmin, hmax⟩ := mean_between s.mtime s.live now
      generalize (s.mtime * s.live + now) / (s.live + 1) = age at hfirst hmin hmax ⊢
      have hsome : times ++ [now] ≠ [] := List.ne_nil_of_mem hmem
      refine ⟨fun hnone => absurd hnone hsome, fun _ => ?_, fun _ => ?_⟩
      · by_cases htimes : times = []
        · exact ⟨now, hmem, (hfirst htimes).ge⟩
        · rcases min_le_iff.mp hmin with hle | hle
          · obtain ⟨t, ht, hbelow⟩ := hs.below htimes
            exact ⟨t, List.mem_append_left _ ht, hbelow.trans hle⟩
          · exact ⟨now, hmem, hle⟩
      · by_cases htimes : times = []
        · exact ⟨now, hmem, (hfirst htimes).le⟩
        · rcases le_max_iff.mp hmax with hle | hle
          · obtain ⟨t, ht, habove⟩ := hs.above htimes
            exact ⟨t, List.mem_append_left _ ht, hle.trans habove⟩
          · exact ⟨now, hmem, hle⟩

/-- Marks keep the age between the times, their own included as far as they write. -/
theorem Spans.markAll : ∀ {marks : List Mark} {answers : List Bool} {s : Segment} {times : List ℕ},
    s.Spans times → s.markAll marks = .ok (answers, s') →
    s'.Spans (times ++ writeTimes marks answers)
  | [], _, _, _, hs, h => by
    cases h
    rw [show writeTimes [] [] = [] from rfl, List.append_nil]
    exact hs
  | m :: marks, answers, s, times, hs, h => by
    unfold Segment.markAll at h
    obtain ⟨⟨changed, s₁⟩, hmark, h⟩ := Guarded.bind_eq_ok.mp h
    obtain ⟨⟨rest, s₂⟩, hrest, h⟩ := Guarded.bind_eq_ok.mp h
    cases h
    rw [show writeTimes (m :: marks) (changed :: rest) =
      m.writes changed ++ writeTimes marks rest from rfl, ← List.append_assoc]
    exact (hs.mark hmark).markAll hrest

/-- The age of a segment lies between the only time that there is. -/
theorem Spans.mtime_eq (hs : s.Spans times) (hsome : times ≠ []) {t : ℕ}
    (hall : ∀ t' ∈ times, t' = t) : s.mtime = t := by
  obtain ⟨t₁, ht₁, hbelow⟩ := hs.below hsome
  obtain ⟨t₂, ht₂, habove⟩ := hs.above hsome
  rw [hall t₁ ht₁] at hbelow
  rw [hall t₂ ht₂] at habove
  exact habove.antisymm hbelow

/-- Marks at times of 48 bits go through and leave the age in 48 bits. -/
theorem Dated.markAll (hblocks : blocks ≤ 2 ^ 16) : ∀ {marks : List Mark} {s : Segment},
    s.Dated blocks → (∀ m ∈ marks, m.Fits blocks) →
    ∃ answers s', s.markAll marks = .ok (answers, s') ∧ s'.Dated blocks
  | [], s, hs, _ => ⟨[], s, rfl, hs⟩
  | m :: marks, s, hs, hfits => by
    obtain ⟨s₁, hmark, hs₁⟩ := hs.mark hblocks (hfits m List.mem_cons_self)
    obtain ⟨answers, s₂, hrest, hs₂⟩ :=
      hs₁.markAll hblocks fun m hm => hfits m (List.mem_cons_of_mem _ hm)
    refine ⟨m.changes s :: answers, s₂, ?_, hs₂⟩
    unfold Segment.markAll
    rw [hmark, Guarded.ok_bind]
    dsimp only
    rw [hrest]
    rfl

/-- In a segment of at most `2 ^ 16` blocks every sequence of writes and drops at times of 48 bits
goes through, if its age has 48 bits too or no block is live to begin with. Since any moment at
which no block was live, the last such moment in particular, the age lies between two of the times
that have been written, if there are any, and is that time if they are all the same. Each further
mark goes through as well, tells whether it changed the segment, and leaves the segment as it is if
it did not. -/
theorem age_within_writes (hblocks : blocks ≤ 2 ^ 16) (hs : s.WellFormed blocks)
    (hage : s.live = 0 ∨ s.mtime < 2 ^ 48) (before since : List Mark)
    (hfits : ∀ m ∈ before ++ since, m.Fits blocks) :
    ∃ answers₁ s₁ answers₂ s₂, s.markAll before = .ok (answers₁, s₁) ∧
      s₁.markAll since = .ok (answers₂, s₂) ∧
      (s₁.live = 0 → s₂.Spans (writeTimes since answers₂) ∧
        ∀ t, writeTimes since answers₂ ≠ [] → (∀ t' ∈ writeTimes since answers₂, t' = t) →
          s₂.mtime = t) ∧
      ∀ m : Mark, m.Fits blocks → ∃ s', s₂.mark m = .ok (m.changes s₂, s') ∧
        (m.changes s₂ = false → s' = s₂) := by
  have hdated : s.Dated blocks := ⟨hs, hage⟩
  obtain ⟨answers₁, s₁, hbefore, hs₁⟩ :=
    hdated.markAll hblocks fun m hm => hfits m (List.mem_append_left _ hm)
  obtain ⟨answers₂, s₂, hsince, hs₂⟩ :=
    hs₁.markAll hblocks fun m hm => hfits m (List.mem_append_right _ hm)
  refine ⟨answers₁, s₁, answers₂, s₂, hbefore, hsince, fun hzero => ?_, fun m hm => ?_⟩
  · have hstart : s₁.Spans [] := ⟨fun _ => hzero, fun h => absurd rfl h, fun h => absurd rfl h⟩
    have hspans : s₂.Spans (writeTimes since answers₂) := hstart.markAll hsince
    exact ⟨hspans, fun t hsome hall => hspans.mtime_eq hsome hall⟩
  · obtain ⟨s', hmark, -⟩ := hs₂.mark hblocks hm
    refine ⟨s', hmark, fun hsame => ?_⟩
    rw [hsame] at hmark
    exact eq_of_mark hmark

/-- A block that is written and dropped. -/
def firstFill : List Mark := [.fill 0 100, .drop 0]

/-- Both blocks of a segment are written, one of them twice. -/
def secondFill : List Mark := [.fill 1 200, .fill 0 301, .fill 0 999]

/-- In a segment of two blocks that has emptied in between, the age is one of the second fill. -/
theorem age_within_writes_refilled : (∀ m ∈ firstFill ++ secondFill, m.Fits 2) ∧
    ∃ answers₁ s₁ answers₂ s₂, (Segment.empty 2).markAll firstFill = .ok (answers₁, s₁) ∧
      s₁.markAll secondFill = .ok (answers₂, s₂) ∧ writeTimes secondFill answers₂ = [200, 301] ∧
      200 ≤ s₂.mtime ∧ s₂.mtime ≤ 301 := by
  have hfits : ∀ m ∈ firstFill ++ secondFill, m.Fits 2 := by
    simp [firstFill, secondFill, Mark.Fits]
  obtain ⟨answers₁, s₁, answers₂, s₂, hfirst, hsecond, hspans, -⟩ :=
    age_within_writes (by decide) (wellFormed_empty 2) (Or.inl rfl) firstFill secondFill hfits
  have hran : (do
      let (_, s₁) ← (Segment.empty 2).markAll firstFill
      let (answers, _) ← s₁.markAll secondFill
      return (s₁.live, answers) : Guarded (ℕ × List Bool)) = .ok (0, [true, true, false]) := by
    decide +kernel
  rw [hfirst, Guarded.ok_bind] at hran
  dsimp only at hran
  rw [hsecond] at hran
  obtain ⟨hlive, rfl⟩ := Prod.mk.inj (Except.ok.inj hran)
  obtain ⟨⟨-, hbelow, habove⟩, -⟩ := hspans hlive
  have htimes : writeTimes secondFill [true, true, false] = [200, 301] := rfl
  rw [htimes] at hbelow habove
  obtain ⟨t, ht, hle⟩ := hbelow nofun
  obtain ⟨t', ht', hle'⟩ := habove nofun
  refine ⟨hfits, answers₁, s₁, _, s₂, hfirst, hsecond, htimes, ?_, ?_⟩
  · rcases List.mem_pair.mp ht with rfl | rfl
    · exact hle
    · omega
  · rcases List.mem_pair.mp ht' with rfl | rfl
    · omega
    · exact hle'

end Segment

end Reclaim
