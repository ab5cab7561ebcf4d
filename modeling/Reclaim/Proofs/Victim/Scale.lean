import Reclaim.Proofs.Victim.Reference

/-!
# The age scale of a search

Costing a section widens the age bounds to its mean age, so the segments of a background search are
priced on one scale after the other: each on the bounds that the ones before it have left
(`SegmentTable.price_costBenefit_eq`). The bounds that are left in the end contain the mean age of
every section that was priced (`SegmentTable.spans_widened`), and bounds that contained them all
from the start are not widened at all (`SegmentTable.price_costBenefit`).

Two costs can be compared as those of two sections when both are on one scale
(`SegmentTable.outranks_of_cost_le`). Of two sections with equally many live blocks the older one is
then the cheaper one, as far as their ages differ by a step of the percentage; when 99 % of the
blocks are live the benefit of one step is less than one, and it takes two.
-/

namespace Reclaim.SegmentTable

variable {t t' : SegmentTable} {g : Geometry} {sec : ℕ}

/-- The age bounds of a table contain the mean age of a section. -/
structure Spans (t : SegmentTable) (g : Geometry) (sec : ℕ) : Prop where
  /-- The mean age is not below the older bound. -/
  oldest_le : t.oldest ≤ t.meanAge g sec
  /-- The mean age is not above the newer bound. -/
  le_newest : t.meanAge g sec ≤ t.newest

/-! ## Widened bounds -/

/-- A table with its age bounds widened to the mean ages of the sections of a list of segments. -/
def widened (t : SegmentTable) (g : Geometry) (segs : List ℕ) : SegmentTable :=
  segs.foldl (fun t seg => t.observe (t.meanAge g (g.sectionOf seg))) t

/-- Bounds are widened to one list after the other. -/
theorem widened_append (t : SegmentTable) (g : Geometry) (segs segs' : List ℕ) :
    t.widened g (segs ++ segs') = (t.widened g segs).widened g segs' :=
  List.foldl_append

/-- Widening its bounds does not change what is recorded in a table. -/
theorem widened_spec : ∀ (t : SegmentTable) (segs : List ℕ),
    (t.widened g segs).records = t.records ∧ (t.widened g segs).live = t.live ∧
      (t.widened g segs).oldest ≤ t.oldest ∧ t.newest ≤ (t.widened g segs).newest
  | _, [] => ⟨rfl, rfl, le_rfl, le_rfl⟩
  | t, seg :: segs => by
    obtain ⟨hrecords, hlive, hold, hnew⟩ :=
      widened_spec (t.observe (t.meanAge g (g.sectionOf seg))) segs
    exact ⟨hrecords, hlive, hold.trans (Nat.min_le_left _ _), (Nat.le_max_left _ _).trans hnew⟩

/-- Bounds that have been widened to a section contain its mean age. -/
theorem spans_widened {seg : ℕ} {segs : List ℕ} (h : seg ∈ segs) :
    (t.widened g segs).Spans g (g.sectionOf seg) := by
  obtain ⟨before, after, rfl⟩ := List.append_of_mem h
  generalize hleft : t.widened g before = left
  have hsplit : t.widened g (before ++ seg :: after) =
      (left.observe (left.meanAge g (g.sectionOf seg))).widened g after := by
    rw [widened_append, hleft]
    rfl
  obtain ⟨hrecords, -, hold, hnew⟩ :=
    widened_spec (g := g) (left.observe (left.meanAge g (g.sectionOf seg))) after
  rw [hsplit]
  have hmean : ((left.observe (left.meanAge g (g.sectionOf seg))).widened g after).meanAge g
      (g.sectionOf seg) = left.meanAge g (g.sectionOf seg) := meanAge_of_records hrecords
  constructor
  · rw [hmean]
    exact hold.trans (Nat.min_le_right _ _)
  · rw [hmean]
    exact (Nat.le_max_right _ _).trans hnew

/-- Bounds that contain the mean ages of all sections are not widened to them. -/
theorem widened_eq_self : ∀ {segs : List ℕ}, (∀ seg ∈ segs, t.Spans g (g.sectionOf seg)) →
    t.widened g segs = t
  | [], _ => rfl
  | seg :: segs, h => by
    obtain ⟨hold, hnew⟩ := h seg List.mem_cons_self
    have hself := observe_eq_self hold hnew
    have hrest := widened_eq_self fun s hs => h s (List.mem_cons_of_mem seg hs)
    unfold widened at hrest ⊢
    rw [List.foldl_cons, hself]
    exact hrest

/-! ## Prices in turn -/

/-- The costs of a list of segments, each on the age bounds that the ones before it have widened. -/
def costsInTurn (t : SegmentTable) (g : Geometry) : List ℕ → List (ℕ × ℕ)
  | [] => []
  | seg :: segs => (seg, t.sectionCost g (g.sectionOf seg)) ::
      (t.observe (t.meanAge g (g.sectionOf seg))).costsInTurn g segs

/-- Under the cost-benefit ranking segments are priced in turn, each by the cost of its section. -/
theorem price_costBenefit_eq (hg : g.Valid) {p : Policy} (hwhole : p.reuse = .wholeSection)
    (hage : p.ranking = .costBenefit) : ∀ {segs : List ℕ} {t t' : SegmentTable}
      {priced : List (ℕ × ℕ)}, t.records.size = g.segments →
      t.price g p segs = .ok (priced, t') →
      (∀ seg ∈ segs, seg < g.segments) ∧ t' = t.widened g segs ∧ priced = t.costsInTurn g segs
  | [], _, _, _, _, h => by
    cases h
    exact ⟨nofun, rfl, rfl⟩
  | seg :: segs, t, _, _, hsize, h => by
    unfold price at h
    obtain ⟨⟨c, t₁⟩, hcost, h⟩ := Guarded.bind_eq_ok.mp h
    obtain ⟨⟨priced, t₂⟩, hprice, h⟩ := Guarded.bind_eq_ok.mp h
    cases h
    -- A segment that was costed is one of the area.
    obtain ⟨hlt, -⟩ := cost_spec hg hcost
    rw [hsize] at hlt
    unfold cost at hcost
    rw [hwhole, hage] at hcost
    obtain ⟨rfl, rfl⟩ := costBenefit_spec hg hsize hlt hcost
    have hsize' : (t.observe (t.meanAge g (g.sectionOf seg))).records.size = g.segments := hsize
    obtain ⟨hsegs, rfl, rfl⟩ := price_costBenefit_eq hg hwhole hage hsize' hprice
    exact ⟨List.forall_mem_cons.mpr ⟨hlt, hsegs⟩, rfl, rfl⟩

/-- The price of a segment is the cost of its section on the bounds that are left before it. -/
theorem mem_costsInTurn {x : ℕ × ℕ} : ∀ {segs : List ℕ} {t : SegmentTable},
    x ∈ t.costsInTurn g segs ↔ ∃ before after, segs = before ++ x.1 :: after ∧
      x.2 = (t.widened g before).sectionCost g (g.sectionOf x.1)
  | [], t => by
    constructor
    · nofun
    · rintro ⟨before, after, hsplit, -⟩
      cases before <;> cases hsplit
  | seg :: segs, t => by
    unfold costsInTurn
    rw [List.mem_cons, mem_costsInTurn]
    constructor
    · rintro (rfl | ⟨before, after, rfl, hcost⟩)
      · exact ⟨[], segs, rfl, rfl⟩
      · exact ⟨seg :: before, after, rfl, hcost⟩
    · rintro ⟨before, after, hsplit, hcost⟩
      cases before with
      | nil =>
        cases hsplit
        exact Or.inl (Prod.ext rfl hcost)
      | cons first before =>
        cases hsplit
        exact Or.inr ⟨before, after, rfl, hcost⟩

/-- On bounds that contain the mean ages of all sections, every segment has the cost that its
section has on these bounds. -/
theorem costsInTurn_eq_map : ∀ {segs : List ℕ}, (∀ seg ∈ segs, t.Spans g (g.sectionOf seg)) →
    t.costsInTurn g segs = segs.map fun seg => (seg, t.sectionCost g (g.sectionOf seg))
  | [], _ => rfl
  | seg :: segs, h => by
    obtain ⟨hold, hnew⟩ := h seg List.mem_cons_self
    unfold costsInTurn
    rw [observe_eq_self hold hnew, costsInTurn_eq_map fun s hs => h s (List.mem_cons_of_mem seg hs)]
    rfl

/-- Pricing sections that the age bounds contain leaves the table as it is, and every segment gets
the cost of its section. -/
theorem price_costBenefit (hg : g.Valid) (hsize : t.records.size = g.segments) {p : Policy}
    (hwhole : p.reuse = .wholeSection) (hage : p.ranking = .costBenefit) {segs : List ℕ}
    {priced : List (ℕ × ℕ)}
    (hspans : ∀ seg ∈ segs, seg < g.segments → t.Spans g (g.sectionOf seg))
    (h : t.price g p segs = .ok (priced, t')) :
    t' = t ∧ (∀ seg ∈ segs, seg < g.segments) ∧
      priced = segs.map fun seg => (seg, t.sectionCost g (g.sectionOf seg)) := by
  obtain ⟨hsegs, rfl, rfl⟩ := price_costBenefit_eq hg hwhole hage hsize h
  have hall : ∀ seg ∈ segs, t.Spans g (g.sectionOf seg) := fun seg hseg =>
    hspans seg hseg (hsegs seg hseg)
  exact ⟨widened_eq_self hall, hsegs, costsInTurn_eq_map hall⟩

/-! ## Comparison on one scale -/

/-- Costing a section widens the bounds to it first, so it makes no difference if they have been
before. -/
theorem sectionCost_observe (t : SegmentTable) (g : Geometry) (sec : ℕ) :
    (t.observe (t.meanAge g sec)).sectionCost g sec = t.sectionCost g sec := by
  have hmean : (t.observe (t.meanAge g sec)).meanAge g sec = t.meanAge g sec := rfl
  have hself : (t.observe (t.meanAge g sec)).observe (t.meanAge g sec) =
      t.observe (t.meanAge g sec) :=
    observe_eq_self (Nat.min_le_right _ _) (Nat.le_max_right _ _)
  unfold sectionCost
  rw [hmean, hself]
  rfl

/-- The number of steps by which the age of a section has to differ to count: one, unless 99 % of
the blocks are live. -/
def ageStep (t : SegmentTable) (g : Geometry) (sec : ℕ) : ℕ :=
  if t.usedPercent g sec ≤ 98 then 1 else 2

/-- On the age scale of a table, one section is as good a victim as another: it costs no more, and
the other one is not older by a step if they have equally many live blocks. -/
structure Outranks (t : SegmentTable) (g : Geometry) (sec sec' : ℕ) : Prop where
  /-- The section costs no more. -/
  cost_le : t.sectionCost g sec ≤ t.sectionCost g sec'
  /-- The other section is not older by a step. -/
  not_older : t.sectionTotal g sec' = t.sectionTotal g sec →
    t.agePercent (t.meanAge g sec') < t.agePercent (t.meanAge g sec) + t.ageStep g sec

/-- The benefit of an age, when a percentage of the blocks is live. -/
theorem benefit_lt {used age age' : ℕ} (hused : used ≤ 99)
    (h : age + (if used ≤ 98 then 1 else 2) ≤ age') :
    100 * (100 - used) * age / (100 + used) < 100 * (100 - used) * age' / (100 + used) := by
  generalize hstep : (if used ≤ 98 then 1 else 2) = step at h
  -- The step is worth a whole unit of the quotient.
  have hworth : 100 + used ≤ 100 * (100 - used) * step := by
    split_ifs at hstep with hlow
    · subst hstep
      omega
    · subst hstep
      obtain rfl : used = 99 := by omega
      decide
  have hgrown : 100 * (100 - used) * age + (100 + used) ≤ 100 * (100 - used) * age' := by
    calc 100 * (100 - used) * age + (100 + used)
        ≤ 100 * (100 - used) * age + 100 * (100 - used) * step := Nat.add_le_add_left hworth _
      _ = 100 * (100 - used) * (age + step) := (Nat.mul_add _ _ _).symm
      _ ≤ 100 * (100 - used) * age' := Nat.mul_le_mul_left _ h
  calc 100 * (100 - used) * age / (100 + used)
      < 100 * (100 - used) * age / (100 + used) + 1 := Nat.lt_succ_self _
    _ = (100 * (100 - used) * age + (100 + used)) / (100 + used) :=
        (Nat.add_div_right _ (by omega)).symm
    _ ≤ 100 * (100 - used) * age' / (100 + used) := Nat.div_le_div_right hgrown

/-- On bounds that contain the mean age of a section, its cost falls with its age there. -/
theorem Spans.sectionCost_eq (h : t.Spans g sec) :
    t.sectionCost g sec = 0xFFFF_FFFF - 100 * (100 - t.usedPercent g sec) *
      t.agePercent (t.meanAge g sec) / (100 + t.usedPercent g sec) := by
  unfold sectionCost
  rw [observe_eq_self h.oldest_le h.le_newest]

/-- A section that is worth collecting and costs no more than another one on the same scale is as
good a victim. -/
theorem outranks_of_cost_le {sec' : ℕ} (h : t.Spans g sec) (h' : t.Spans g sec')
    (hworth : t.sectionCost g sec < 0xFFFF_FFFF)
    (hle : t.sectionCost g sec ≤ t.sectionCost g sec') : t.Outranks g sec sec' := by
  refine ⟨hle, fun htotal => ?_⟩
  have hused : t.usedPercent g sec' = t.usedPercent g sec := by
    unfold usedPercent
    rw [htotal]
  rw [h.sectionCost_eq] at hworth hle
  rw [h'.sectionCost_eq, hused] at hle
  have hbenefit := benefit_le (t.usedPercent g sec) (t.agePercent_le (t.meanAge g sec))
  have hbenefit' := benefit_le (t.usedPercent g sec) (t.agePercent_le (t.meanAge g sec'))
  -- A section without a dead block has no benefit.
  have hpart : t.usedPercent g sec ≤ 99 := by
    by_contra hfull
    have hnone : 100 - t.usedPercent g sec = 0 := by omega
    rw [hnone, Nat.mul_zero, Nat.zero_mul, Nat.zero_div] at hworth
    exact absurd hworth (by decide)
  by_contra holder
  have hlt := benefit_lt hpart (Nat.le_of_not_lt holder)
  omega

end Reclaim.SegmentTable
