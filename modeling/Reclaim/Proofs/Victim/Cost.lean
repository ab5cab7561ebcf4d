import Reclaim.Victim.Cost
import Reclaim.Proofs.Area.Sound

/-!
# What a candidate costs

The cost of a candidate is a number of its table (`SegmentTable.sectionCost` under the cost-benefit
ranking, a live count under the others), and costing it widens the age bounds to the mean age of its
section and does nothing else. No step of the computation leaves the width of its field as long as
the ages of the section have room for a sum and a percentage (`SegmentTable.AgesFit`): no more than
all of a section is live, so the benefit is at most 10000.

A mean age that the bounds contain already leaves the table as it was, so that costs can be compared
across searches (`SegmentTable.observe_eq_self`).
-/

namespace Reclaim

namespace SegmentTable

variable {t t' : SegmentTable} {g : Geometry} {seg sec c : ℕ}

/-! ## Ages -/

/-- The ages of the segments of a section, added up. -/
def ageTotal (t : SegmentTable) (g : Geometry) (sec : ℕ) : ℕ :=
  ((g.sectionSegments sec).map fun seg => (t.record seg).mtime).sum

/-- The mean age of the segments of a section. -/
def meanAge (t : SegmentTable) (g : Geometry) (sec : ℕ) : ℕ :=
  t.ageTotal g sec / g.segmentsPerSection

/-- The ages of a section have room for their sum and for a percentage of their mean. -/
structure AgesFit (t : SegmentTable) (g : Geometry) (sec : ℕ) : Prop where
  /-- The sum has 64 bits. -/
  total : t.ageTotal g sec < 2 ^ 64
  /-- A hundred times the mean has 64 bits. -/
  percent : 100 * t.meanAge g sec < 2 ^ 64

/-- An age on the scale from 100 at the older bound to 0 at the newer one. -/
def agePercent (t : SegmentTable) (age : ℕ) : ℕ :=
  if t.newest = t.oldest then 0 else 100 - 100 * (age - t.oldest) / (t.newest - t.oldest)

/-- Ages are added up exactly when the sum has 64 bits. -/
theorem ageSum_eq_ok : ∀ {segs : List ℕ} {n : ℕ}, (∀ s ∈ segs, s < t.records.size) →
    (t.ageSum segs = .ok n ↔ (segs.map fun s => (t.record s).mtime).sum < 2 ^ 64 ∧
      (segs.map fun s => (t.record s).mtime).sum = n)
  | [], n, _ => by simp [ageSum]
  | s :: segs, n, h => by
    have hrest := fun m => ageSum_eq_ok (n := m) fun k hk => h k (List.mem_cons_of_mem _ hk)
    unfold ageSum
    rw [get_eq (h s List.mem_cons_self), Guarded.ok_bind, Guarded.bind_eq_ok, List.map_cons,
      List.sum_cons]
    simp only [hrest, Guarded.fit64_eq_ok]
    constructor
    · rintro ⟨m, ⟨-, rfl⟩, hlt, rfl⟩
      exact ⟨hlt, rfl⟩
    · rintro ⟨hlt, rfl⟩
      exact ⟨_, ⟨by omega, rfl⟩, hlt, rfl⟩

/-- The segments of the section of a segment of the area have records. -/
theorem lt_of_mem_section (hg : g.Valid) (hsize : t.records.size = g.segments)
    (hseg : seg < g.segments) : ∀ s ∈ g.sectionSegments (g.sectionOf seg), s < t.records.size := by
  intro s hs
  rw [hsize]
  exact Geometry.lt_segments_of_sectionOf hg (Geometry.sectionOf_lt hg hseg)
    ((Geometry.mem_sectionSegments hg).mp hs)

/-- The mean age of a section is computed exactly when the sum of its ages has 64 bits. -/
theorem sectionAge_eq_ok (hg : g.Valid) (hsize : t.records.size = g.segments)
    (hseg : seg < g.segments) {age : ℕ} :
    t.sectionAge g seg = .ok age ↔
      t.ageTotal g (g.sectionOf seg) < 2 ^ 64 ∧ t.meanAge g (g.sectionOf seg) = age := by
  unfold sectionAge
  rw [Guarded.bind_eq_ok]
  simp only [ageSum_eq_ok (lt_of_mem_section hg hsize hseg), Guarded.pure_eq_ok, Except.ok.injEq]
  constructor
  · rintro ⟨_, ⟨hlt, rfl⟩, h⟩
    exact ⟨hlt, h⟩
  · rintro ⟨hlt, h⟩
    exact ⟨_, ⟨hlt, rfl⟩, h⟩

/-- A scaled age is the percentage. -/
theorem agePercent_of_scaledAge {age n : ℕ} (h : t.scaledAge age = .ok n) :
    t.agePercent age = n := by
  unfold scaledAge at h
  unfold agePercent
  split_ifs at h ⊢ with heq
  · cases h
    rfl
  · obtain ⟨above, habove, h⟩ := Guarded.bind_eq_ok.mp h
    obtain ⟨scaled, hscaled, h⟩ := Guarded.bind_eq_ok.mp h
    obtain ⟨range, hrange, h⟩ := Guarded.bind_eq_ok.mp h
    obtain ⟨-, rfl⟩ := Guarded.minus_eq_ok.mp habove
    obtain ⟨-, rfl⟩ := Guarded.fit64_eq_ok.mp hscaled
    obtain ⟨-, rfl⟩ := Guarded.minus_eq_ok.mp hrange
    exact (Guarded.minus_eq_ok.mp h).2

/-- An age within the bounds can be scaled if a hundred times the age has 64 bits. -/
theorem scaledAge_eq {age : ℕ} (hold : t.oldest ≤ age) (hnew : age ≤ t.newest)
    (hfit : 100 * age < 2 ^ 64) : t.scaledAge age = .ok (t.agePercent age) := by
  unfold scaledAge agePercent
  split_ifs with heq
  · rfl
  · have hrange : 0 < t.newest - t.oldest := by omega
    have hle : 100 * (age - t.oldest) / (t.newest - t.oldest) ≤ 100 := by
      apply Nat.div_le_of_le_mul
      rw [Nat.mul_comm (t.newest - t.oldest)]
      exact Nat.mul_le_mul_left 100 (Nat.sub_le_sub_right hnew _)
    rw [Guarded.minus_eq hold, Guarded.ok_bind,
      Guarded.fit64_eq (by omega), Guarded.ok_bind,
      Guarded.minus_eq (hold.trans hnew), Guarded.ok_bind, Guarded.minus_eq hle]

/-- The age percentage is one. -/
theorem agePercent_le (t : SegmentTable) (age : ℕ) : t.agePercent age ≤ 100 := by
  unfold agePercent
  split_ifs
  · exact Nat.zero_le _
  · exact Nat.sub_le _ _

/-! ## The cost-benefit cost -/

/-- A table with a record for each segment, none of which counts more live blocks than a segment
has. -/
structure Capped (t : SegmentTable) (g : Geometry) : Prop where
  /-- There is a record for each segment. -/
  size : t.records.size = g.segments
  /-- No record counts more live blocks than a segment has. -/
  live_le : ∀ seg < g.segments, (t.record seg).live ≤ g.segmentBlocks

/-- Records that count their live blocks count no more than a segment has. -/
theorem WellFormed.capped (ht : t.WellFormed g) : t.Capped g :=
  ⟨ht.size, fun seg hseg => Segment.live_le (ht.records seg hseg)⟩

/-- Whether the counts of a table are capped depends on the records alone. -/
theorem Capped.of_records (ht : t.Capped g) (hrecords : t'.records = t.records) : t'.Capped g := by
  have hrecord := record_of_records hrecords
  exact ⟨by rw [hrecords, ht.size], by rw [hrecord]; exact ht.live_le⟩

/-- The percentage of the blocks of a section that are live. -/
def usedPercent (t : SegmentTable) (g : Geometry) (sec : ℕ) : ℕ :=
  t.sectionTotal g sec * 100 / g.sectionBlocks

/-- The cost-benefit cost of a section, on the age scale widened to its mean age. -/
def sectionCost (t : SegmentTable) (g : Geometry) (sec : ℕ) : ℕ :=
  0xFFFF_FFFF - 100 * (100 - t.usedPercent g sec) *
    (t.observe (t.meanAge g sec)).agePercent (t.meanAge g sec) / (100 + t.usedPercent g sec)

/-- No more blocks of a section are live than it has. -/
theorem sectionTotal_le (hg : g.Valid) (ht : t.Capped g) (hsec : sec < g.sections) :
    t.sectionTotal g sec ≤ g.sectionBlocks := by
  have hle : ∀ n ∈ (g.sectionSegments sec).map fun seg => (t.record seg).live,
      n ≤ g.segmentBlocks := by
    intro n hn
    obtain ⟨s, hs, rfl⟩ := List.mem_map.mp hn
    exact ht.live_le s (Geometry.lt_segments_of_sectionOf hg hsec
      ((Geometry.mem_sectionSegments hg).mp hs))
  have hsum := List.sum_le_card_nsmul _ _ hle
  rw [List.length_map, nsmul_eq_mul, Nat.cast_id] at hsum
  unfold sectionTotal Geometry.sectionBlocks
  rw [Nat.mul_comm]
  simpa [Geometry.sectionSegments] using hsum

/-- The percentage of live blocks is one. -/
theorem usedPercent_le (hg : g.Valid) (ht : t.Capped g) (hsec : sec < g.sections) :
    t.usedPercent g sec ≤ 100 :=
  Nat.div_le_of_le_mul (Nat.mul_le_mul_right 100 (sectionTotal_le hg ht hsec))

/-- The benefit of a section is at most 10000. -/
theorem benefit_le (u : ℕ) {age : ℕ} (hage : age ≤ 100) :
    100 * (100 - u) * age / (100 + u) ≤ 10000 := by
  apply Nat.div_le_of_le_mul
  calc 100 * (100 - u) * age ≤ 100 * 100 * 100 :=
        Nat.mul_le_mul (Nat.mul_le_mul_left 100 (Nat.sub_le 100 u)) hage
    _ = 100 * 10000 := rfl
    _ ≤ (100 + u) * 10000 := Nat.mul_le_mul_right _ (Nat.le_add_right 100 u)

/-- A cost-benefit cost that was computed is the one of the section, and the age bounds are widened
to the mean age of the section. -/
theorem costBenefit_spec (hg : g.Valid) (hsize : t.records.size = g.segments)
    (hseg : seg < g.segments) (h : t.costBenefit g seg = .ok (c, t')) :
    c = t.sectionCost g (g.sectionOf seg) ∧ t' = t.observe (t.meanAge g (g.sectionOf seg)) := by
  unfold costBenefit at h
  obtain ⟨age, hage, h⟩ := Guarded.bind_eq_ok.mp h
  obtain ⟨live, hlive, h⟩ := Guarded.bind_eq_ok.mp h
  obtain ⟨scaled, hscaled, h⟩ := Guarded.bind_eq_ok.mp h
  obtain ⟨spare, hspare, h⟩ := Guarded.bind_eq_ok.mp h
  obtain ⟨benefit, hbenefit, h⟩ := Guarded.bind_eq_ok.mp h
  obtain ⟨-, rfl⟩ := (sectionAge_eq_ok hg hsize hseg).mp hage
  rw [sectionLive_eq hg hsize hseg] at hlive
  cases hlive
  obtain ⟨-, rfl⟩ := Guarded.minus_eq_ok.mp hspare
  obtain ⟨-, rfl⟩ := Guarded.fit32_eq_ok.mp hbenefit
  cases h
  rw [← agePercent_of_scaledAge hscaled]
  exact ⟨rfl, rfl⟩

/-- A section whose ages fit can be costed. -/
theorem costBenefit_eq (hg : g.Valid) (ht : t.Capped g) (hseg : seg < g.segments)
    (hfit : t.AgesFit g (g.sectionOf seg)) :
    t.costBenefit g seg =
      .ok (t.sectionCost g (g.sectionOf seg), t.observe (t.meanAge g (g.sectionOf seg))) := by
  have hsec := Geometry.sectionOf_lt hg hseg
  have hscaled := scaledAge_eq (t := t.observe (t.meanAge g (g.sectionOf seg)))
    (Nat.min_le_right _ _) (Nat.le_max_right _ _) hfit.percent
  have hbenefit := benefit_le (t.usedPercent g (g.sectionOf seg))
    ((t.observe (t.meanAge g (g.sectionOf seg))).agePercent_le (t.meanAge g (g.sectionOf seg)))
  have hused : t.sectionTotal g (g.sectionOf seg) * 100 / g.sectionBlocks =
      t.usedPercent g (g.sectionOf seg) := rfl
  unfold costBenefit
  rw [(sectionAge_eq_ok hg ht.size hseg).mpr ⟨hfit.total, rfl⟩, Guarded.ok_bind,
    sectionLive_eq hg ht.size hseg, Guarded.ok_bind]
  dsimp only
  rw [hscaled, Guarded.ok_bind, hused, Guarded.minus_eq (usedPercent_le hg ht hsec),
    Guarded.ok_bind, Guarded.fit32_eq (by omega)]
  rfl

/-- Bounds that contain an age are not widened to it. -/
theorem observe_eq_self {age : ℕ} (hold : t.oldest ≤ age) (hnew : age ≤ t.newest) :
    t.observe age = t := by
  unfold observe
  rw [Nat.min_eq_left hold, Nat.max_eq_left hnew]

/-- The ages of a section are read off the records. -/
theorem ageTotal_of_records (h : t'.records = t.records) :
    t'.ageTotal g sec = t.ageTotal g sec := by
  unfold ageTotal
  rw [record_of_records h]

/-- So is their mean. -/
theorem meanAge_of_records (h : t'.records = t.records) : t'.meanAge g sec = t.meanAge g sec := by
  unfold meanAge
  rw [ageTotal_of_records h]

/-- Whether the ages of a section fit depends on the records alone. -/
theorem AgesFit.of_records (h : t.AgesFit g sec) (hrecords : t'.records = t.records) :
    t'.AgesFit g sec := by
  have htotal : t'.ageTotal g sec = t.ageTotal g sec := ageTotal_of_records hrecords
  have hmean : t'.meanAge g sec = t.meanAge g sec := meanAge_of_records hrecords
  exact ⟨by rw [htotal]; exact h.total, by rw [hmean]; exact h.percent⟩

/-! ## Costs that need no ages -/

/-- A segment of the area has a cost if no ages are compared. -/
theorem cost_eq_of_not_costBenefit (hg : g.Valid) (hsize : t.records.size = g.segments)
    (hseg : seg < g.segments) {p : Policy}
    (hp : ¬(p.reuse = .wholeSection ∧ p.ranking = .costBenefit)) :
    ∃ c, t.cost g seg p = .ok (c, t) := by
  have hget : t.get seg = .ok (t.record seg) := get_eq (by omega)
  unfold cost
  split
  · exact ⟨_, by rw [hget]; rfl⟩
  · unfold liveBlocks
    split_ifs
    · exact ⟨_, by rw [sectionLive_eq hg hsize hseg, Guarded.ok_bind]; rfl⟩
    · exact ⟨_, by rw [hget]; rfl⟩
  · next hreuse hranking => exact absurd ⟨hreuse, hranking⟩ hp

/-- A segment of the area has a cost if its ages fit wherever ages are compared. -/
theorem exists_cost (hg : g.Valid) (ht : t.Capped g) (hseg : seg < g.segments) (p : Policy)
    (hfit : p.reuse = .wholeSection → p.ranking = .costBenefit → t.AgesFit g (g.sectionOf seg)) :
    ∃ c t', t.cost g seg p = .ok (c, t') := by
  by_cases hp : p.reuse = .wholeSection ∧ p.ranking = .costBenefit
  · unfold cost
    rw [hp.1, hp.2]
    exact ⟨_, _, costBenefit_eq hg ht hseg (hfit hp.1 hp.2)⟩
  · obtain ⟨c, hc⟩ := cost_eq_of_not_costBenefit hg ht.size hseg hp
    exact ⟨c, t, hc⟩

end SegmentTable

/-! ## The largest cost -/

/-- The six logs write into six different sections. -/
theorem Area.Sound.six_le_sections {a : Area} (ha : a.Sound) : 6 ≤ a.geometry.sections := by
  have hnodup : (Log.all.map fun log =>
      a.geometry.sectionOf (a.heads.get log).segment).Nodup :=
    List.Nodup.map (fun log log' h => ha.apart log log' h) (by decide)
  have hsubset : (Log.all.map fun log => a.geometry.sectionOf (a.heads.get log).segment).toFinset ⊆
      Finset.range a.geometry.sections := by
    intro sec hsec
    obtain ⟨log, -, rfl⟩ := List.mem_map.mp (List.mem_toFinset.mp hsec)
    exact Finset.mem_range.mpr
      (Geometry.sectionOf_lt ha.geometry (ha.lt_of_used (ha.heads log).used))
  have hcard := Finset.card_le_card hsubset
  rw [List.toFinset_card_of_nodup hnodup, List.length_map, Finset.card_range] at hcard
  exact hcard

/-- Twice the blocks of a section fit a word, since the area has more than two sections. -/
theorem Area.Sound.twice_section_lt {a : Area} (ha : a.Sound) :
    2 * a.geometry.segmentBlocks * a.geometry.segmentsPerSection < 2 ^ 32 := by
  have hend := Geometry.end_lt ha.geometry
  have hsix : 6 * a.geometry.segmentsPerSection ≤ a.geometry.segments := by
    rw [← Geometry.sections_mul ha.geometry]
    exact Nat.mul_le_mul_right _ ha.six_le_sections
  calc 2 * a.geometry.segmentBlocks * a.geometry.segmentsPerSection
      = 2 * a.geometry.segmentsPerSection * a.geometry.segmentBlocks := Nat.mul_right_comm ..
    _ ≤ a.geometry.segments * a.geometry.segmentBlocks := Nat.mul_le_mul_right _ (by omega)
    _ < 2 ^ 32 := by omega

/-- The largest cost of a policy whose unit is a section wherever sections are reclaimed. -/
theorem Area.Sound.maxCost_eq {a : Area} (ha : a.Sound) {p : Policy}
    (hp : p.reuse = .wholeSection → p.unit = a.geometry.segmentsPerSection) :
    ∃ bound, p.maxCost a.geometry = .ok bound := by
  unfold Policy.maxCost
  split
  · exact ⟨_, rfl⟩
  · next hreuse _ =>
    refine ⟨_, Guarded.fit32_eq ?_⟩
    rw [hp hreuse]
    exact ha.twice_section_lt
  · exact ⟨_, rfl⟩

end Reclaim
