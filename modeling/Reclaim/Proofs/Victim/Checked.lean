import Reclaim.Proofs.Area.Clock
import Reclaim.Proofs.Victim.Cost

/-!
# Costs in machine words

The cost functions compute with words of 32 and 64 bits. Here they are written once more with every
sum, difference, product and quotient checked where it is formed, so that a step that wraps, goes
below zero or divides by zero traps (`SegmentTable.checkedCost`, `Policy.checkedMaxCost`). None
does: with ages of a clock of 32 bits, whatever the age bounds are, the checked costs are the costs
(`SegmentTable.checkedCost_eq`). What carries this are the sizes of the layout, the percentages
being percentages, and the bounds having been widened to an age before it is scaled.
-/

namespace Reclaim

/-! ## Checked steps -/

namespace Guarded

/-- A quotient by a number that must not be zero. -/
def quotient (a b : ℕ) : Guarded ℕ := if b = 0 then .error .width else .ok (a / b)

/-- Adds up a number for each segment of a list, checking each partial sum. -/
def addUp (fit f : ℕ → Guarded ℕ) (segs : List ℕ) : Guarded ℕ :=
  segs.foldlM (fun n seg => do
    let x ← f seg
    fit (n + x)) 0

/-- A quotient by a positive number is computed. -/
theorem quotient_eq {a b : ℕ} (h : 0 < b) : quotient a b = .ok (a / b) := if_neg (Nat.ne_of_gt h)

/-- Numbers are added up as far as the whole sum passes the check, since no partial sum is
larger. -/
theorem addUp_eq {fit f : ℕ → Guarded ℕ} {value : ℕ → ℕ} {bound : ℕ}
    (hfit : ∀ n < bound, fit n = .ok n) {segs : List ℕ} (hf : ∀ seg ∈ segs, f seg = .ok (value seg))
    (hsum : (segs.map value).sum < bound) : addUp fit f segs = .ok (segs.map value).sum := by
  suffices h : ∀ n, n + (segs.map value).sum < bound →
      segs.foldlM (fun n seg => do let x ← f seg; fit (n + x)) n =
        .ok (n + (segs.map value).sum) by
    have hzero := h 0 (by omega)
    rw [Nat.zero_add] at hzero
    exact hzero
  clear hsum
  induction segs with
  | nil => exact fun n _ => rfl
  | cons seg segs ih =>
    intro n hn
    rw [List.map_cons, List.sum_cons, ← Nat.add_assoc] at hn ⊢
    rw [List.foldlM_cons, hf seg List.mem_cons_self, ok_bind, hfit _ (by omega), ok_bind]
    exact ih (fun s hs => hf s (List.mem_cons_of_mem _ hs)) _ hn

end Guarded

/-! ## Sizes -/

namespace Geometry

variable {g : Geometry}

/-- Numbers up to twice the number of segments have 32 bits, since a segment has two blocks or
more. -/
theorem two_mul_segments_lt (hg : g.Valid) : 2 * g.segments < 2 ^ 32 := by
  have hend := end_lt hg
  have hle : g.segments * 2 ≤ g.segments * g.segmentBlocks :=
    Nat.mul_le_mul_left _ (two_le_segmentBlocks hg)
  omega

/-- A section has no more segments than the area. -/
theorem perSection_le (hg : g.Valid) : g.segmentsPerSection ≤ g.segments :=
  Nat.le_of_dvd hg.segments_pos (Nat.dvd_of_mod_eq_zero hg.whole)

/-- The blocks of a section are counted in 32 bits. -/
theorem sectionBlocks_lt (hg : g.Valid) : g.sectionBlocks < 2 ^ 32 := by
  have hend := end_lt hg
  have hle : g.segmentBlocks * g.segmentsPerSection ≤ g.segmentBlocks * g.segments :=
    Nat.mul_le_mul_left _ (perSection_le hg)
  rw [Nat.mul_comm g.segmentBlocks g.segments] at hle
  unfold sectionBlocks
  omega

/-- A section has a block. -/
theorem sectionBlocks_pos (hg : g.Valid) : 0 < g.sectionBlocks :=
  Nat.mul_pos (segmentBlocks_pos hg) hg.perSection_pos

/-- The segments of the section of a segment, with the steps to them checked. -/
def checkedSection (g : Geometry) (seg : ℕ) : Guarded (List ℕ) := do
  let sec ← Guarded.quotient seg g.segmentsPerSection
  let start ← Guarded.fit32 (sec * g.segmentsPerSection)
  let stop ← Guarded.fit32 (start + g.segmentsPerSection)
  return List.range' start (stop - start)

/-- The section of a segment of the area is found without leaving a word. -/
theorem checkedSection_eq (hg : g.Valid) {seg : ℕ} (hseg : seg < g.segments) :
    g.checkedSection seg = .ok (g.sectionSegments (g.sectionOf seg)) := by
  have hend := section_end_le hg (sectionOf_lt hg hseg)
  have hword := two_mul_segments_lt hg
  unfold firstSegment sectionOf at hend
  unfold checkedSection sectionSegments firstSegment sectionOf
  rw [Guarded.quotient_eq hg.perSection_pos, Guarded.ok_bind, Guarded.fit32_eq (by omega),
    Guarded.ok_bind, Guarded.fit32_eq (by omega), Guarded.ok_bind, Nat.add_sub_cancel_left]
  rfl

end Geometry

namespace SegmentTable

variable {t : SegmentTable} {g : Geometry} {seg : ℕ}

/-- The ages of a section fit when each has 32 bits. -/
theorem Clocked.agesFit (h : t.Clocked) (hg : g.Valid) (sec : ℕ) : t.AgesFit g sec := by
  have hle : ∀ n ∈ (g.sectionSegments sec).map fun seg => (t.record seg).mtime, n ≤ 2 ^ 32 - 1 := by
    intro n hn
    obtain ⟨s, -, rfl⟩ := List.mem_map.mp hn
    exact Nat.le_sub_one_of_lt (h s)
  have htotal : t.ageTotal g sec ≤ g.segmentsPerSection * (2 ^ 32 - 1) := by
    have hsum := List.sum_le_card_nsmul _ _ hle
    rw [List.length_map, nsmul_eq_mul, Nat.cast_id] at hsum
    unfold ageTotal
    simpa only [Geometry.sectionSegments, List.length_range'] using hsum
  have hmean : t.meanAge g sec ≤ 2 ^ 32 - 1 := Nat.div_le_of_le_mul htotal
  have hper := Geometry.perSection_le hg
  have hword := Geometry.two_mul_segments_lt hg
  constructor
  · calc t.ageTotal g sec ≤ g.segmentsPerSection * (2 ^ 32 - 1) := htotal
      _ ≤ 2 ^ 32 * (2 ^ 32 - 1) := Nat.mul_le_mul_right _ (by omega)
      _ < 2 ^ 64 := by decide
  · omega

/-! ## Checked costs -/

/-- The live blocks of a segment, or of its whole section, added up in 32 bits. -/
def checkedLive (t : SegmentTable) (g : Geometry) (seg : ℕ) (whole : Bool) : Guarded ℕ := do
  let live := fun s => do
    let s ← t.get s
    return s.live
  if !whole || g.segmentsPerSection = 1 then
    live seg
  else
    let segs ← g.checkedSection seg
    Guarded.addUp Guarded.fit32 live segs

/-- An age on the scale of the bounds of the table, with each step checked. -/
def checkedScale (t : SegmentTable) (age : ℕ) : Guarded ℕ :=
  if t.newest = t.oldest then
    return 0
  else do
    let above ← Guarded.minus age t.oldest
    let scaled ← Guarded.fit64 (100 * above)
    let range ← Guarded.minus t.newest t.oldest
    let ratio ← Guarded.quotient scaled range
    Guarded.minus 100 ratio

/-- The mean age of the section of a segment, with each step checked. -/
def checkedAge (t : SegmentTable) (g : Geometry) (seg : ℕ) : Guarded ℕ := do
  let segs ← g.checkedSection seg
  let sum ← Guarded.addUp Guarded.fit64 (fun s => do
    let s ← t.get s
    return s.mtime) segs
  Guarded.quotient sum g.segmentsPerSection

/-- The percentage of live blocks in the section of a segment, with each step checked. -/
def checkedUsed (t : SegmentTable) (g : Geometry) (seg : ℕ) : Guarded ℕ := do
  let live ← t.checkedLive g seg true
  let hundredfold ← Guarded.fit64 (live * 100)
  let blocks ← Guarded.fit32 (g.segmentBlocks * g.segmentsPerSection)
  Guarded.quotient hundredfold blocks

/-- The benefit of a percentage of live blocks and a scaled age, with each step checked. -/
def checkedBenefit (used scaled : ℕ) : Guarded ℕ := do
  let spare ← Guarded.minus 100 used
  let spared ← Guarded.fit64 (100 * spare)
  let aged ← Guarded.fit64 (spared * scaled)
  let weight ← Guarded.fit64 (100 + used)
  let benefit ← Guarded.quotient aged weight
  Guarded.fit32 benefit

/-- The cost-benefit cost of the section of a segment, with each step checked. -/
def checkedCostBenefit (t : SegmentTable) (g : Geometry) (seg : ℕ) :
    Guarded (ℕ × SegmentTable) := do
  let age ← t.checkedAge g seg
  let used ← t.checkedUsed g seg
  let t := t.observe age
  let scaled ← t.checkedScale age
  let benefit ← checkedBenefit used scaled
  let cost ← Guarded.minus 0xFFFF_FFFF benefit
  return (cost, t)

/-- The cost of a segment under a policy, with each step checked. -/
def checkedCost (t : SegmentTable) (g : Geometry) (seg : ℕ) (p : Policy) :
    Guarded (ℕ × SegmentTable) :=
  match p.reuse, p.ranking with
  | .slots, _ => do
    let s ← t.get seg
    return (s.saved, t)
  | .wholeSection, .greedy => do
    let live ← t.checkedLive g seg (1 < p.unit)
    return (live, t)
  | .wholeSection, .costBenefit => t.checkedCostBenefit g seg

/-- The live blocks of a section have 32 bits. -/
theorem sectionTotal_lt (hg : g.Valid) (ht : t.Capped g) {sec : ℕ} (hsec : sec < g.sections) :
    t.sectionTotal g sec < 2 ^ 32 :=
  lt_of_le_of_lt (sectionTotal_le hg ht hsec) (Geometry.sectionBlocks_lt hg)

/-- Live blocks are added up without leaving a word. -/
theorem checkedLive_eq (hg : g.Valid) (ht : t.Capped g) (hseg : seg < g.segments)
    (whole : Bool) : t.checkedLive g seg whole = t.liveBlocks g seg whole := by
  have hsec := Geometry.sectionOf_lt hg hseg
  unfold checkedLive liveBlocks
  cases whole with
  | false => rfl
  | true =>
    dsimp only
    rw [if_pos rfl]
    by_cases hone : g.segmentsPerSection = 1
    · unfold sectionLive
      rw [if_pos hone, if_pos (by simp [hone])]
    · rw [if_neg (by simp [hone]), Geometry.checkedSection_eq hg hseg, Guarded.ok_bind,
        sectionLive_eq hg ht.size hseg]
      refine Guarded.addUp_eq (fun n hn => Guarded.fit32_eq hn) (fun s hs => ?_)
        (sectionTotal_lt hg ht hsec)
      rw [get_eq (lt_of_mem_section hg ht.size hseg s hs)]
      rfl

/-- An age within the bounds of the table is scaled without leaving a word. -/
theorem checkedScale_eq {age : ℕ} (hold : t.oldest ≤ age) (hnew : age ≤ t.newest)
    (hfit : 100 * age < 2 ^ 64) : t.checkedScale age = .ok (t.agePercent age) := by
  rw [← scaledAge_eq hold hnew hfit]
  unfold checkedScale scaledAge
  split_ifs with heq
  · rfl
  · have hrange : 0 < t.newest - t.oldest := by omega
    rw [Guarded.minus_eq hold, Guarded.ok_bind, Guarded.ok_bind, Guarded.fit64_eq (by omega),
      Guarded.ok_bind, Guarded.ok_bind, Guarded.minus_eq (hold.trans hnew), Guarded.ok_bind,
      Guarded.ok_bind, Guarded.quotient_eq hrange, Guarded.ok_bind]

/-- A mean of ages that fit is computed without leaving a word. -/
theorem checkedAge_eq (hg : g.Valid) (hsize : t.records.size = g.segments)
    (hseg : seg < g.segments) (hfit : t.AgesFit g (g.sectionOf seg)) :
    t.checkedAge g seg = .ok (t.meanAge g (g.sectionOf seg)) := by
  unfold checkedAge
  rw [Geometry.checkedSection_eq hg hseg, Guarded.ok_bind,
    Guarded.addUp_eq (fun n hn => Guarded.fit64_eq hn) (fun s hs => ?_) hfit.total, Guarded.ok_bind,
    Guarded.quotient_eq hg.perSection_pos]
  · rfl
  · rw [get_eq (lt_of_mem_section hg hsize hseg s hs)]
    rfl

/-- The percentage of live blocks is computed without leaving a word. -/
theorem checkedUsed_eq (hg : g.Valid) (ht : t.Capped g) (hseg : seg < g.segments) :
    t.checkedUsed g seg = .ok (t.usedPercent g (g.sectionOf seg)) := by
  have hlive := sectionTotal_lt hg ht (Geometry.sectionOf_lt hg hseg)
  have hwhole : t.checkedLive g seg true = .ok (t.sectionTotal g (g.sectionOf seg)) := by
    rw [checkedLive_eq hg ht hseg]
    exact sectionLive_eq hg ht.size hseg
  have hblocks : g.segmentBlocks * g.segmentsPerSection = g.sectionBlocks := rfl
  unfold checkedUsed
  rw [hwhole, Guarded.ok_bind, Guarded.fit64_eq (by omega), Guarded.ok_bind, hblocks,
    Guarded.fit32_eq (Geometry.sectionBlocks_lt hg), Guarded.ok_bind,
    Guarded.quotient_eq (Geometry.sectionBlocks_pos hg)]
  rfl

/-- The benefit of two percentages is computed without leaving a word, and is at most 10000. -/
theorem checkedBenefit_eq {used scaled : ℕ} (hused : used ≤ 100) (hscaled : scaled ≤ 100) :
    checkedBenefit used scaled = .ok (100 * (100 - used) * scaled / (100 + used)) := by
  have hbenefit := benefit_le used hscaled
  have haged : 100 * (100 - used) * scaled ≤ 10000 * 100 :=
    Nat.mul_le_mul (by omega) hscaled
  unfold checkedBenefit
  rw [Guarded.minus_eq hused, Guarded.ok_bind, Guarded.fit64_eq (by omega), Guarded.ok_bind,
    Guarded.fit64_eq (by omega), Guarded.ok_bind, Guarded.fit64_eq (by omega), Guarded.ok_bind,
    Guarded.quotient_eq (by omega), Guarded.ok_bind, Guarded.fit32_eq (by omega)]

/-- The cost-benefit cost of a section whose ages fit is computed without leaving a word, whatever
the age bounds are. -/
theorem checkedCostBenefit_eq (hg : g.Valid) (ht : t.Capped g) (hseg : seg < g.segments)
    (hfit : t.AgesFit g (g.sectionOf seg)) : t.checkedCostBenefit g seg = t.costBenefit g seg := by
  have hused := usedPercent_le hg ht (Geometry.sectionOf_lt hg hseg)
  rw [costBenefit_eq hg ht hseg hfit]
  unfold checkedCostBenefit sectionCost
  rw [checkedAge_eq hg ht.size hseg hfit, Guarded.ok_bind, checkedUsed_eq hg ht hseg,
    Guarded.ok_bind]
  -- The bounds have been widened to the mean age, so it can be scaled between them.
  have hpercent := hfit.percent
  generalize t.meanAge g (g.sectionOf seg) = age at hpercent ⊢
  have hscaled := (t.observe age).agePercent_le age
  have hbenefit := benefit_le (t.usedPercent g (g.sectionOf seg)) hscaled
  dsimp only
  rw [checkedScale_eq (Nat.min_le_right _ _) (Nat.le_max_right _ _) hpercent, Guarded.ok_bind,
    checkedBenefit_eq hused hscaled, Guarded.ok_bind, Guarded.minus_eq (by omega)]
  rfl

/-- With ages of 32 bits the cost of a segment of the area is computed without leaving a word,
under any policy and whatever the age bounds are. -/
theorem checkedCost_eq (hg : g.Valid) (ht : t.Capped g) (hclocked : t.Clocked)
    (hseg : seg < g.segments) (p : Policy) : t.checkedCost g seg p = t.cost g seg p := by
  unfold checkedCost cost
  cases p.reuse with
  | slots => rfl
  | wholeSection =>
    cases p.ranking with
    | greedy =>
      dsimp only
      rw [checkedLive_eq hg ht hseg]
    | costBenefit => exact checkedCostBenefit_eq hg ht hseg (hclocked.agesFit hg _)

end SegmentTable

/-! ## The largest cost -/

/-- The largest cost of a policy, with each step checked. -/
def Policy.checkedMaxCost (p : Policy) (g : Geometry) : Guarded ℕ :=
  match p.reuse, p.ranking with
  | .slots, _ => return g.segmentBlocks
  | .wholeSection, .greedy => do
    let twice ← Guarded.fit32 (2 * g.segmentBlocks)
    Guarded.fit32 (twice * p.unit)
  | .wholeSection, .costBenefit => return 0xFFFF_FFFF

/-- The largest cost of a policy is computed without leaving a word. -/
theorem Area.Sound.checkedMaxCost_eq {a : Area} (ha : a.Sound) (p : Policy) :
    p.checkedMaxCost a.geometry = p.maxCost a.geometry := by
  unfold Policy.checkedMaxCost Policy.maxCost
  cases p.reuse with
  | slots => rfl
  | wholeSection =>
    cases p.ranking with
    | greedy =>
      have htwice := ha.twice_section_lt
      have hle := Nat.le_mul_of_pos_right (2 * a.geometry.segmentBlocks) ha.geometry.perSection_pos
      dsimp only
      rw [Guarded.fit32_eq (lt_of_le_of_lt hle htwice), Guarded.ok_bind]
    | costBenefit => rfl

end Reclaim
