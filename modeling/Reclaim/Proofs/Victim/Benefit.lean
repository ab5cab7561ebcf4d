import Reclaim.Proofs.Victim.Checked
import Reclaim.Proofs.Victim.Scale

/-!
# The cost-benefit cost is bounded and monotone

Costing a section by its age is safe for every table whose counts are capped and whose ages fit,
whatever the age bounds have been, inverted ones included. The cost is the largest 32-bit number
less a benefit of at most 10000, and the bounds that are left contain the mean age and whatever the
old ones contained (`SegmentTable.exists_costed`).

Both percentages are rounded down, and so is their quotient. The benefit is still monotone in each
of them: it falls with the live blocks, and with the mean age as long as the scale stays the same
(`SegmentTable.benefit_mono`, `SegmentTable.agePercent_antitone`). On bounds that contain the mean
ages already the scale does stay the same, so costs do not depend on what was costed before.
-/

namespace Reclaim.SegmentTable

variable {t t' : SegmentTable} {g : Geometry} {seg sec sec' c : ℕ}

/-! ## Bounds -/

/-- What costing a section by its age amounts to: the cost, and the table that it leaves. -/
structure Costed (t : SegmentTable) (g : Geometry) (seg c : ℕ) (t' : SegmentTable) : Prop where
  /-- The cost is computed. -/
  computed : t.costBenefit g seg = .ok (c, t')
  /-- No step of the computation wraps, goes below zero or divides by zero. -/
  checked : t.checkedCostBenefit g seg = .ok (c, t')
  /-- The records stay as they are. -/
  records : t'.records = t.records
  /-- So does the count of the live blocks. -/
  live : t'.live = t.live
  /-- The older bound is not above the mean age of the section. -/
  oldest_le : t'.oldest ≤ t.meanAge g (g.sectionOf seg)
  /-- The newer bound is not below it. -/
  le_newest : t.meanAge g (g.sectionOf seg) ≤ t'.newest
  /-- What was within the bounds still is. -/
  contains : ∀ age, t.oldest ≤ age → age ≤ t.newest → t'.oldest ≤ age ∧ age ≤ t'.newest
  /-- The cost is at most 10000 below the largest number of 32 bits. -/
  le_cost : 2 ^ 32 - 1 - 10000 ≤ c
  /-- The cost has 32 bits. -/
  cost_le : c ≤ 2 ^ 32 - 1

/-- The cost of a section is the largest number of 32 bits less at most 10000. -/
theorem sectionCost_bounds (t : SegmentTable) (g : Geometry) (sec : ℕ) :
    2 ^ 32 - 1 - 10000 ≤ t.sectionCost g sec ∧ t.sectionCost g sec ≤ 2 ^ 32 - 1 := by
  have hbenefit := benefit_le (t.usedPercent g sec)
    ((t.observe (t.meanAge g sec)).agePercent_le (t.meanAge g sec))
  unfold sectionCost
  constructor
  · exact Nat.sub_le_sub_left hbenefit _
  · exact Nat.sub_le _ _

/-- A section whose ages fit is costed, whatever the age bounds are. -/
theorem exists_costed (hg : g.Valid) (ht : t.Capped g) (hseg : seg < g.segments)
    (hfit : t.AgesFit g (g.sectionOf seg)) : ∃ c t', t.Costed g seg c t' := by
  have hcost := costBenefit_eq hg ht hseg hfit
  have hchecked := checkedCostBenefit_eq hg ht hseg hfit
  obtain ⟨hle, hge⟩ := sectionCost_bounds t g (g.sectionOf seg)
  refine ⟨_, _, hcost, hchecked.trans hcost, rfl, rfl, Nat.min_le_right _ _, Nat.le_max_right _ _,
    fun age hold hnew => ⟨?_, ?_⟩, hle, hge⟩
  · exact (Nat.min_le_left _ _).trans hold
  · exact hnew.trans (Nat.le_max_left _ _)

/-! ## Monotonicity -/

/-- The benefit does not fall when less is live and the age percentage is no lower. -/
theorem benefit_mono {used used' age age' : ℕ} (hused : used ≤ used') (hage : age' ≤ age) :
    100 * (100 - used') * age' / (100 + used') ≤ 100 * (100 - used) * age / (100 + used) := by
  have hspare : 100 * (100 - used') ≤ 100 * (100 - used) :=
    Nat.mul_le_mul_left 100 (Nat.sub_le_sub_left hused 100)
  calc 100 * (100 - used') * age' / (100 + used')
      ≤ 100 * (100 - used) * age / (100 + used') :=
        Nat.div_le_div_right (Nat.mul_le_mul hspare hage)
    _ ≤ 100 * (100 - used) * age / (100 + used) :=
        Nat.div_le_div_left (Nat.add_le_add_left hused 100) (by omega)

/-- On one scale the percentage of a later age is no higher. -/
theorem agePercent_antitone (t : SegmentTable) {age age' : ℕ} (h : age ≤ age') :
    t.agePercent age' ≤ t.agePercent age := by
  unfold agePercent
  split_ifs with hpoint
  · exact le_rfl
  · have hscaled : 100 * (age - t.oldest) ≤ 100 * (age' - t.oldest) :=
      Nat.mul_le_mul_left 100 (Nat.sub_le_sub_right h _)
    exact Nat.sub_le_sub_left (Nat.div_le_div_right hscaled) 100

/-- On bounds that contain both mean ages, a section with no more live blocks and no later mean age
costs no more. -/
theorem Spans.sectionCost_le (h : t.Spans g sec) (h' : t.Spans g sec')
    (htotal : t.sectionTotal g sec ≤ t.sectionTotal g sec')
    (hmean : t.meanAge g sec ≤ t.meanAge g sec') : t.sectionCost g sec ≤ t.sectionCost g sec' := by
  have hused : t.usedPercent g sec ≤ t.usedPercent g sec' :=
    Nat.div_le_div_right (Nat.mul_le_mul_right 100 htotal)
  have hage := t.agePercent_antitone hmean
  rw [h.sectionCost_eq, h'.sectionCost_eq]
  exact Nat.sub_le_sub_left (benefit_mono hused hage) _

/-! ## Costs on a settled scale -/

/-- A segment of the area whose section can be costed by age without widening the bounds. -/
structure Settled (t : SegmentTable) (g : Geometry) (seg : ℕ) : Prop where
  /-- The segment is one of the area. -/
  lt : seg < g.segments
  /-- The ages of its section fit. -/
  fit : t.AgesFit g (g.sectionOf seg)
  /-- The bounds contain the mean age of its section. -/
  spans : t.Spans g (g.sectionOf seg)

/-- Costing a section on a settled scale leaves the table as it is. -/
theorem Settled.costBenefit_eq (h : t.Settled g seg) (hg : g.Valid) (ht : t.Capped g) :
    t.costBenefit g seg = .ok (t.sectionCost g (g.sectionOf seg), t) := by
  have hcost := SegmentTable.costBenefit_eq hg ht h.lt h.fit
  rw [observe_eq_self h.spans.oldest_le h.spans.le_newest] at hcost
  exact hcost

/-- On a settled scale segments can be priced in any order: each gets the cost of its section, and
the table is left as it is. -/
theorem price_of_settled (hg : g.Valid) (ht : t.Capped g) {p : Policy}
    (hwhole : p.reuse = .wholeSection) (hage : p.ranking = .costBenefit) {order : List ℕ}
    (horder : ∀ seg ∈ order, t.Settled g seg) :
    t.price g p order =
      .ok (order.map fun seg => (seg, t.sectionCost g (g.sectionOf seg)), t) := by
  obtain ⟨priced, t', hprice⟩ := Area.exists_price hg p order ht
    (fun seg hseg => (horder seg hseg).lt) (fun seg hseg _ _ => (horder seg hseg).fit)
  obtain ⟨rfl, -, rfl⟩ := price_costBenefit hg ht.size hwhole hage
    (fun seg hseg _ => (horder seg hseg).spans) hprice
  exact hprice

/-- In an accepted layout, with counts that are capped: a segment of a section whose ages fit is
costed without a step that wraps, goes below zero or divides by zero, whatever the age bounds have
been. Of two sections that are costed on bounds that contain their mean ages, the one with no more
live blocks and no later mean age costs no more. And segments of such sections have each a cost that
does not depend on the order in which they are costed, and the table is left as it is. -/
theorem costBenefit_bounded_monotone {mainStart segmentBits perSection segments reserved : ℕ}
    (hmake : Geometry.make mainStart segmentBits perSection segments reserved = .ok g)
    (ht : t.Capped g) :
    (∀ seg < g.segments, t.AgesFit g (g.sectionOf seg) → ∃ c t', t.Costed g seg c t') ∧
    (∀ seg < g.segments, ∀ seg' < g.segments, ∀ (c c' : ℕ) (t₁ t₂ : SegmentTable),
      t.costBenefit g seg = .ok (c, t₁) → t.costBenefit g seg' = .ok (c', t₂) →
      t.Spans g (g.sectionOf seg) → t.Spans g (g.sectionOf seg') →
      t.sectionTotal g (g.sectionOf seg) ≤ t.sectionTotal g (g.sectionOf seg') →
      t.meanAge g (g.sectionOf seg) ≤ t.meanAge g (g.sectionOf seg') → c ≤ c') ∧
    ∃ cost : ℕ → ℕ, (∀ seg, t.Settled g seg → t.costBenefit g seg = .ok (cost seg, t)) ∧
      ∀ p : Policy, p.reuse = .wholeSection → p.ranking = .costBenefit →
        ∀ order : List ℕ, (∀ seg ∈ order, t.Settled g seg) →
          t.price g p order = .ok (order.map fun seg => (seg, cost seg), t) := by
  obtain ⟨-, hg⟩ := Geometry.make_eq_ok_iff.mp hmake
  refine ⟨fun seg hseg hfit => exists_costed hg ht hseg hfit, ?_,
    fun seg => t.sectionCost g (g.sectionOf seg), fun seg h => h.costBenefit_eq hg ht,
    fun p hwhole hage order horder => price_of_settled hg ht hwhole hage horder⟩
  intro seg hseg seg' hseg' c c' t₁ t₂ hcost hcost' hspans hspans' htotal hmean
  obtain ⟨rfl, -⟩ := costBenefit_spec hg ht.size hseg hcost
  obtain ⟨rfl, -⟩ := costBenefit_spec hg ht.size hseg' hcost'
  exact hspans.sectionCost_le hspans' htotal hmean

/-- An area of two sections of one segment each. -/
def twoSections : Geometry := ⟨64, 1, 1, 2, 0⟩

/-- A table of two segments with a live block each, the first written before the second. -/
def twoAges (oldest newest : ℕ) : SegmentTable :=
  ⟨#[⟨Bitmap.empty 2, 1, 0, 100, none⟩, ⟨Bitmap.empty 2, 1, 0, 500, none⟩], 2, oldest, newest⟩

/-- Of the two segments of `twoAges` the second can be costed on inverted bounds. On bounds that
contain both ages the first costs less, and it costs the same between two costings of the second. -/
theorem costBenefit_bounded_monotone_two :
    (∃ c t', (twoAges (2 ^ 64 - 1) 0).Costed twoSections 1 c t') ∧
    (twoAges 0 1000).costBenefit twoSections 0 = .ok (4294964295, twoAges 0 1000) ∧
    (twoAges 0 1000).costBenefit twoSections 1 = .ok (4294965629, twoAges 0 1000) ∧
    4294964295 ≤ 4294965629 ∧
    ∃ cost : ℕ → ℕ, (twoAges 0 1000).price twoSections
      (Policy.start .wholeSection .costBenefit .dirty 3 0 1) [1, 0, 1] =
        .ok ([(1, cost 1), (0, cost 0), (1, cost 1)], twoAges 0 1000) := by
  have hmake : Geometry.make 64 1 1 2 0 = .ok twoSections := rfl
  have hcapped : ∀ oldest newest : ℕ, (twoAges oldest newest).Capped twoSections := by
    intro oldest newest
    refine ⟨rfl, fun seg hseg => ?_⟩
    obtain rfl | rfl : seg = 0 ∨ seg = 1 := by
      have hlt : seg < 2 := hseg
      omega
    · exact Nat.le_succ 1
    · exact Nat.le_succ 1
  have hfirst : (twoAges 0 1000).costBenefit twoSections 0 =
      .ok (4294964295, twoAges 0 1000) := rfl
  have hsecond : (twoAges 0 1000).costBenefit twoSections 1 =
      .ok (4294965629, twoAges 0 1000) := rfl
  have hzero : (twoAges 0 1000).Settled twoSections 0 :=
    ⟨by decide, ⟨by decide, by decide⟩, by decide, by decide⟩
  have hone : (twoAges 0 1000).Settled twoSections 1 :=
    ⟨by decide, ⟨by decide, by decide⟩, by decide, by decide⟩
  obtain ⟨hcosted, -, -⟩ := costBenefit_bounded_monotone hmake (hcapped (2 ^ 64 - 1) 0)
  obtain ⟨-, hmono, cost, -, hprice⟩ := costBenefit_bounded_monotone hmake (hcapped 0 1000)
  have hle := hmono 0 hzero.lt 1 hone.lt _ _ _ _ hfirst hsecond hzero.spans hone.spans
    (by decide) (by decide)
  exact ⟨hcosted 1 (by decide) ⟨by decide, by decide⟩, hfirst, hsecond, hle, cost,
    hprice _ rfl rfl [1, 0, 1] (by simp [hzero, hone])⟩

end Reclaim.SegmentTable
