import Reclaim.Proofs.Victim.Checked

/-!
# What stays in range

The maps of an area are read and written by the word, and its numbers are kept in words of 32 and 64
bits. `Area.InRange` says that neither leaves its bounds: every map has the words that its size
calls for, with nothing marked at or past the size (`Bitmap.InRange`), every number is at most what
it counts, and the cost functions compute in words whatever the age bounds are. `Ready.inRange`
derives this from the books of a ready area.
-/

namespace Reclaim

/-! ## Reading maps -/

namespace Bitmap

variable {b : Bitmap} {size : ℕ}

/-- Whether a number is a member, with the word looked up in the table of words. -/
def checkedContains (b : Bitmap) (i : ℕ) : Guarded Bool :=
  if i < b.size then do
    let w ← Guarded.fetch b.words (i / 64)
    return Word.bit w (i % 64)
  else
    return false

/-- The least member from a word on, with each further word looked up in the table of words. A walk
that is not at its end after `left` words traps. -/
def checkedNextWord (b : Bitmap) (stop : ℕ) : ℕ → ℕ → UInt64 → Guarded ℕ
  | left, k, w =>
    if w ≠ 0 then
      return min (64 * k + Word.lowest w) stop
    else if stop ≤ 64 * (k + 1) then
      return stop
    else
      match left with
      | 0 => .error .runaway
      | left + 1 => do
        let w ← Guarded.fetch b.words (k + 1)
        checkedNextWord b stop left (k + 1) w

/-- The least member at or after `start` and below `stop`, with each word looked up in the table of
words. -/
def checkedNext (b : Bitmap) (start stop : ℕ) : Guarded ℕ :=
  let stop := min stop b.size
  if stop ≤ start then
    return stop
  else do
    let w ← Guarded.fetch b.words (start / 64)
    b.checkedNextWord stop b.words.size (start / 64) (w &&& Word.upFrom (start % 64))

/-- A word of the table is looked up. -/
theorem fetch_word {k : ℕ} (h : k < b.words.size) : Guarded.fetch b.words k = .ok (b.word k) := by
  rw [Guarded.fetch_eq h]
  unfold word
  rw [Array.getElem?_eq_getElem h, Option.getD_some]

/-- Membership is read within the table of words. -/
theorem checkedContains_eq (hb : b.WellFormed) (i : ℕ) :
    b.checkedContains i = .ok (b.contains i) := by
  unfold checkedContains contains
  by_cases hi : i < b.size
  · rw [if_pos hi, fetch_word (div_lt_words_size hb hi)]
    simp [hi]
  · rw [if_neg hi]
    simp [hi]

/-- A walk over the words of a map stays within the table of words, and ends with the last of them
at the latest. -/
theorem checkedNextWord_eq {stop : ℕ} (hstop : stop ≤ 64 * b.words.size) :
    ∀ {left k : ℕ} {w : UInt64}, b.words.size ≤ k + left + 1 →
      b.checkedNextWord stop left k w = .ok (b.nextWord stop left k w) := by
  intro left
  induction left with
  | zero =>
    intro k w hleft
    have hend : stop ≤ 64 * (k + 1) := by omega
    unfold checkedNextWord nextWord
    rw [if_pos hend]
    split_ifs <;> rfl
  | succ left ih =>
    intro k w hleft
    unfold checkedNextWord nextWord
    dsimp only
    split_ifs with hw hend
    · rfl
    · rfl
    · rw [fetch_word (by omega), Guarded.ok_bind]
      exact ih (by omega)

/-- The next member is looked for within the table of words. -/
theorem checkedNext_eq (hb : b.WellFormed) (start stop : ℕ) :
    b.checkedNext start stop = .ok (b.next start stop) := by
  unfold checkedNext next
  dsimp only
  split_ifs with hempty
  · rfl
  · have hin : start / 64 < b.words.size := div_lt_words_size hb (by omega)
    have hwords := hb.words_size
    rw [fetch_word hin, Guarded.ok_bind]
    exact checkedNextWord_eq (by omega) (by omega)

/-- A map of the numbers below a size that is never read or written past its words, with nothing
marked at or past the size. -/
structure InRange (b : Bitmap) (size : ℕ) : Prop where
  /-- The map is for the numbers below the size. -/
  size_eq : b.size = size
  /-- No bit at or past the size is set. -/
  stray : ∀ i, size ≤ i → Word.bit (b.word (i / 64)) (i % 64) = false
  /-- Membership is read within the words. -/
  contains : ∀ i, b.checkedContains i = .ok (b.contains i)
  /-- The next member is looked for within the words. -/
  next : ∀ start stop, b.checkedNext start stop = .ok (b.next start stop)
  /-- A number below the size is added within the words. -/
  insert : ∀ i < size, ∃ x, b.insert i = .ok x
  /-- A number below the size is removed within the words. -/
  erase : ∀ i < size, ∃ x, b.erase i = .ok x

/-- Well formed maps stay in range. -/
theorem WellFormed.inRange (hb : b.WellFormed) (hsize : b.size = size) : b.InRange size where
  size_eq := hsize
  stray i hi := hb.stray i (by omega)
  contains := checkedContains_eq hb
  next := checkedNext_eq hb
  insert i hi := by
    obtain ⟨b', h, -⟩ := insert_spec hb (i := i) (by omega)
    exact ⟨_, h⟩
  erase i hi := by
    obtain ⟨b', h, -⟩ := erase_spec hb (i := i) (by omega)
    exact ⟨_, h⟩

end Bitmap

namespace Area

variable {a : Area}

/-! ## Areas in range -/

/-- The maps of an area, each with the size that it should have. -/
inductive HasMap (a : Area) : Bitmap → ℕ → Prop
  /-- The live blocks of a segment. -/
  | blocks {seg : ℕ} (inside : seg < a.geometry.segments) :
    HasMap a (a.table.record seg).map a.geometry.segmentBlocks
  /-- The segments of a list. -/
  | listed (c : DirtyClass) : HasMap a (a.dirty.roster c).map a.geometry.segments
  /-- The staged sections. -/
  | staged : HasMap a a.dirty.staged a.geometry.sections
  /-- The segments in use. -/
  | usedSegments : HasMap a a.free.usedSegments a.geometry.segments
  /-- The sections in use. -/
  | usedSections : HasMap a a.free.usedSections a.geometry.sections

/-- The maps and the numbers of an area stay within their bounds. -/
structure InRange (a : Area) : Prop where
  /-- No map is read or written past its words, and nothing is marked past its size. -/
  maps : ∀ b size, a.HasMap b size → b.InRange size
  /-- The table has a record for each segment. -/
  records : a.table.records.size = a.geometry.segments
  /-- A segment has no more live blocks than blocks. -/
  live_le : ∀ seg < a.geometry.segments, (a.table.record seg).live ≤ a.geometry.segmentBlocks
  /-- The area has no more live blocks than blocks. -/
  total_le : a.table.live ≤ a.geometry.segments * a.geometry.segmentBlocks
  /-- A list has no more members than there are segments. -/
  count_le : ∀ c, a.dirty.count c ≤ a.geometry.segments
  /-- No more segments are free than there are. -/
  freeSegments_le : a.free.freeSegments ≤ a.geometry.segments
  /-- No more sections are free than there are. -/
  freeSections_le : a.free.freeSections ≤ a.geometry.sections
  /-- The logs write into segments of the area. -/
  head_lt : ∀ log, (a.heads.get log).segment < a.geometry.segments
  /-- The logs stand within their segments, or behind the last block of them. -/
  next_le : ∀ log, (a.heads.get log).next ≤ a.geometry.segmentBlocks
  /-- The searches resume in the area. -/
  cursor_lt : ∀ ranking, a.cursors.get ranking < a.geometry.segments
  /-- The ages have 32 bits. -/
  age_lt : ∀ seg, (a.table.record seg).mtime < 2 ^ 32
  /-- A section has no more segments than the area. -/
  perSection_le : a.geometry.segmentsPerSection ≤ a.geometry.segments
  /-- The segments of the area and one section more, or the sections counted twice, have numbers of
  32 bits. -/
  positions : 2 * a.geometry.segments < 2 ^ 32
  /-- The area ends below the last address. -/
  addresses : a.geometry.mainStart + a.geometry.segments * a.geometry.segmentBlocks < 2 ^ 32 - 1
  /-- Twice the blocks of a section have 32 bits. -/
  twice_section : 2 * a.geometry.segmentBlocks * a.geometry.segmentsPerSection < 2 ^ 32
  /-- The live blocks of a section have 32 bits. -/
  section_lt : ∀ sec < a.geometry.sections, a.table.sectionTotal a.geometry sec < 2 ^ 32
  /-- The largest cost of a search is computed in words. -/
  maxCost : ∀ trigger log reuse, ∃ bound,
    (a.policy trigger log reuse).maxCost a.geometry = .ok bound ∧
      (a.policy trigger log reuse).checkedMaxCost a.geometry = .ok bound
  /-- The cost of a segment is computed in words, whatever the age bounds are. -/
  cost : ∀ trigger log reuse oldest newest, ∀ seg < a.geometry.segments, ∃ c t,
    ({ a.table with oldest, newest }).cost a.geometry seg (a.policy trigger log reuse) =
        .ok (c, t) ∧
      ({ a.table with oldest, newest }).checkedCost a.geometry seg (a.policy trigger log reuse) =
        .ok (c, t)

/-- The maps of a sound area stay in range. -/
theorem HasMap.inRange {b : Bitmap} {size : ℕ} (h : a.HasMap b size) (ha : a.Sound) :
    b.InRange size := by
  cases h with
  | blocks inside =>
    have hs := ha.table.records _ inside
    exact hs.map.inRange hs.map_size
  | listed c => exact (ha.dirty.roster c).map.inRange (ha.dirty.roster c).size
  | staged => exact ha.dirty.staged.inRange ha.dirty.staged_size
  | usedSegments => exact ha.free.segments.inRange ha.free.segments_size
  | usedSections => exact ha.free.sections.inRange ha.free.sections_size

/-- The area has no more live blocks than blocks. -/
theorem Sound.total_le (ha : a.Sound) :
    a.table.live ≤ a.geometry.segments * a.geometry.segmentBlocks := by
  rw [ha.table.live_eq]
  calc ∑ seg ∈ Finset.range a.geometry.segments, (a.table.record seg).live
      ≤ ∑ _seg ∈ Finset.range a.geometry.segments, a.geometry.segmentBlocks :=
        Finset.sum_le_sum fun seg hseg =>
          Segment.live_le (ha.table.records seg (Finset.mem_range.mp hseg))
    _ = a.geometry.segments * a.geometry.segmentBlocks := by simp

/-- A list has no more members than there are segments. -/
theorem Sound.count_le (ha : a.Sound) (c : DirtyClass) : a.dirty.count c ≤ a.geometry.segments := by
  have hroster := ha.dirty.roster c
  unfold DirtyLists.count
  rw [hroster.count_eq, ← hroster.size]
  exact (Finset.card_filter_le _ _).trans (Finset.card_range _).le

/-- The largest cost of a search is computed in words. -/
theorem Sound.exists_maxCost (ha : a.Sound) (trigger : Trigger) (log : Option Log)
    (reuse : Reuse) : ∃ bound, (a.policy trigger log reuse).maxCost a.geometry = .ok bound ∧
      (a.policy trigger log reuse).checkedMaxCost a.geometry = .ok bound := by
  obtain ⟨bound, hbound⟩ := ha.maxCost_eq (p := a.policy trigger log reuse) (by rintro rfl; rfl)
  exact ⟨bound, hbound, by rw [ha.checkedMaxCost_eq, hbound]⟩

/-- In a ready area the cost of a segment is computed in words, whatever the age bounds are. -/
theorem Ready.exists_cost (ha : a.Ready) (p : Policy) (oldest newest : ℕ) {seg : ℕ}
    (hseg : seg < a.geometry.segments) : ∃ c t,
      ({ a.table with oldest, newest }).cost a.geometry seg p = .ok (c, t) ∧
        ({ a.table with oldest, newest }).checkedCost a.geometry seg p = .ok (c, t) := by
  have ht : SegmentTable.Capped { a.table with oldest, newest } a.geometry :=
    ha.table.capped.of_records rfl
  have hclocked : SegmentTable.Clocked { a.table with oldest, newest } :=
    ha.clocked.of_records rfl
  obtain ⟨c, t, h⟩ := SegmentTable.exists_cost ha.geometry ht hseg p fun _ _ =>
    hclocked.agesFit ha.geometry _
  exact ⟨c, t, h, by rw [SegmentTable.checkedCost_eq ha.geometry ht hclocked hseg, h]⟩

/-- In a ready area everything stays in range. -/
theorem Ready.inRange (ha : a.Ready) : a.InRange where
  maps _ _ h := h.inRange ha.toSound
  records := ha.table.size
  live_le seg hseg := Segment.live_le (ha.table.records seg hseg)
  total_le := ha.toSound.total_le
  count_le := ha.toSound.count_le
  freeSegments_le := by
    have := ha.free.free_segments
    omega
  freeSections_le := by
    have := ha.free.free_sections
    omega
  head_lt log := ha.lt_of_used (ha.heads log).used
  next_le log := (ha.heads log).next_le
  cursor_lt := ha.cursors
  age_lt := ha.clocked
  perSection_le := Geometry.perSection_le ha.geometry
  positions := Geometry.two_mul_segments_lt ha.geometry
  addresses := Geometry.end_lt ha.geometry
  twice_section := ha.toSound.twice_section_lt
  section_lt _ hsec := SegmentTable.sectionTotal_lt ha.geometry ha.table.capped hsec
  maxCost := ha.toSound.exists_maxCost
  cost _ _ _ oldest newest _ hseg := ha.exists_cost _ oldest newest hseg

end Area

end Reclaim
