import Reclaim.Proofs.Victim.Cycle
import Reclaim.Proofs.Victim.Scale

/-!
# One background search

When the age bounds contain the mean age of every section with a dirty segment, costing widens
nothing, and a background search changes a cursor and stages at most one section
(`Area.Sound.background_search`). It answers with a section that it examined and that may be
collected, and it answers with none only if it examined no such section. The sections that it
examines are the first in the cycle of the sections with a dirty segment, and the next search goes
on behind them (`Area.Sound.order_next`).
-/

namespace Reclaim

/-- A sweep comes to members of its map, as far as it stays within the map. -/
theorem Sweep.contains_of_mem_visits {map : Bitmap} (hmap : map.WellFormed) {unit resume seg : ℕ} :
    ∀ (n : ℕ) (s : Sweep), seg ∈ s.visits map unit resume n → seg < map.size →
      map.contains seg = true
  | n + 1, s, h, hlt => by
    unfold visits at h
    cases hnext : s.next? map unit resume with
    | none =>
      rw [hnext] at h
      cases h
    | some found =>
      rw [hnext] at h
      rcases List.mem_cons.mp h with rfl | h
      · exact Area.next?_contains hmap hnext hlt
      · exact contains_of_mem_visits hmap n found.2 h hlt

namespace Area

variable {a a' : Area} {log : Option Log} {r : Outcome ℕ} {sec : ℕ}

/-! ## What background searches look for -/

/-- The policy of background searches. -/
def backgroundPolicy (a : Area) : Policy := a.policy .background none .wholeSection

/-- The sections with a dirty segment. -/
def dirtySections (a : Area) : Finset ℕ :=
  (a.dirty.roster .dirty).map.toFinset.image a.geometry.sectionOf

/-- A background search examines a section when it examines a segment of the section. -/
def Examines (a : Area) (sec : ℕ) : Prop :=
  ∃ seg ∈ a.examined a.backgroundPolicy, a.geometry.sectionOf seg = sec

/-- A section that a background search may answer with. -/
structure Collectable (a : Area) (sec : ℕ) : Prop where
  /-- The section has a dirty segment. -/
  dirty : sec ∈ a.dirtySections
  /-- No log writes into the section. -/
  closed : a.isOpenSection sec = false
  /-- The section is not under collection. -/
  unclaimed : a.claimed ≠ some sec
  /-- The section is not staged. -/
  unstaged : a.dirty.staged.contains sec = false
  /-- There is something to be gained from the section. -/
  worthwhile : a.table.sectionCost a.geometry sec < 0xFFFF_FFFF

open Classical in
/-- The sections that a background search may answer with. -/
noncomputable def collectables (a : Area) : Finset ℕ := a.dirtySections.filter a.Collectable

/-- Every section that may be collected has a dirty segment. -/
theorem mem_collectables : sec ∈ a.collectables ↔ a.Collectable sec := by
  classical
  exact Finset.mem_filter.trans (and_iff_right_of_imp Collectable.dirty)

/-- A section has a dirty segment when one of its segments is on the list of dirty ones. -/
theorem mem_dirtySections :
    sec ∈ a.dirtySections ↔
      ∃ seg, a.dirty.contains .dirty seg = true ∧ a.geometry.sectionOf seg = sec := by
  unfold dirtySections
  rw [Finset.mem_image]
  simp only [Bitmap.mem_toFinset]
  rfl

/-- A background search passes a section over when it is open, under collection or staged. -/
theorem isPassedOver_background_eq_false_iff :
    a.isPassedOver .background sec = false ↔ a.isOpenSection sec = false ∧
      a.claimed ≠ some sec ∧ a.dirty.staged.contains sec = false := by
  unfold isPassedOver
  rw [Bool.or_eq_false_iff, isBusySection_eq_false_iff, and_assoc]
  simp

/-- The list of dirty segments is made of whole sections. -/
theorem Sound.dvd_size_roster (ha : a.Sound) :
    a.geometry.segmentsPerSection ∣ (a.dirty.roster .dirty).map.size := by
  rw [ha.size_roster]
  exact Nat.dvd_of_mod_eq_zero ha.geometry.whole

/-- The sections with a dirty segment are the units with a member. -/
theorem Sound.mem_dirtySections_iff (ha : a.Sound) :
    sec ∈ a.dirtySections ↔
      sec ∈ Sweep.units (a.dirty.roster .dirty).map a.geometry.segmentsPerSection := by
  rw [mem_dirtySections, Sweep.mem_units ha.geometry.perSection_pos ha.dvd_size_roster]
  refine exists_congr fun seg => ?_
  rw [and_comm]
  rfl

/-- There are as many sections with a dirty segment as units with a member. -/
theorem Sound.card_dirtySections (ha : a.Sound) :
    a.dirtySections.card =
      (Sweep.units (a.dirty.roster .dirty).map a.geometry.segmentsPerSection).length := by
  have hnodup : (Sweep.units (a.dirty.roster .dirty).map a.geometry.segmentsPerSection).Nodup :=
    (Sweep.units_sorted _ _).imp Nat.ne_of_lt
  rw [← List.toFinset_card_of_nodup hnodup]
  congr 1
  ext sec
  rw [ha.mem_dirtySections_iff, List.mem_toFinset]

/-- The budget of a background search is the number of dirty segments, up to the limit. -/
theorem budget_backgroundPolicy (a : Area) :
    a.backgroundPolicy.budget = min (a.dirty.count .dirty) a.searchLimit := rfl

/-! ## What a background search does -/

/-- What a background search leaves alone when its costs are on a settled scale. -/
structure Still (a a' : Area) : Prop where
  /-- The geometry is the same. -/
  geometry : a'.geometry = a.geometry
  /-- The limit of the search is the same. -/
  searchLimit : a'.searchLimit = a.searchLimit
  /-- The table is the same, with its age bounds. -/
  table : a'.table = a.table
  /-- The logs stand where they stood. -/
  heads : a'.heads = a.heads
  /-- The section under collection is the same. -/
  claimed : a'.claimed = a.claimed
  /-- The lists are the same. -/
  roster : ∀ c, a'.dirty.roster c = a.dirty.roster c

/-- Doing nothing leaves everything alone. -/
theorem Still.refl (a : Area) : a.Still a := ⟨rfl, rfl, rfl, rfl, rfl, fun _ => rfl⟩

/-- What two searches leave alone, they leave alone one after the other. -/
theorem Still.trans {a₁ : Area} (h : a.Still a₁) (h' : a₁.Still a') : a.Still a' where
  geometry := h'.geometry.trans h.geometry
  searchLimit := h'.searchLimit.trans h.searchLimit
  table := h'.table.trans h.table
  heads := h'.heads.trans h.heads
  claimed := h'.claimed.trans h.claimed
  roster c := (h'.roster c).trans (h.roster c)

/-- What one background search can do. -/
structure BackgroundStep (a : Area) (r : Outcome ℕ) (a' : Area) : Prop where
  /-- Only the cursor and the staged sections change. -/
  still : a.Still a'
  /-- The next search resumes behind what this one has examined. -/
  cursor : a'.cursors.costBenefit = cursorAfter a.geometry.segments a.backgroundPolicy.budget
    (a.examined a.backgroundPolicy)
  /-- The search stages the section that it answers with, or has examined none to answer with. -/
  answer : r = .error .unavailable ∧ a'.dirty.staged = a.dirty.staged ∧
      (∀ sec, a.Examines sec → ¬a.Collectable sec) ∨
    ∃ sec, r = .ok (a.geometry.firstSegment sec) ∧ a.Collectable sec ∧
      ∀ k, a'.dirty.staged.contains k = (decide (k = sec) || a.dirty.staged.contains k)

/-- Staging a section leaves the lists as they are. -/
theorem roster_of_stage {d d' : DirtyLists} {present : Bool} (h : d.stage sec = .ok (present, d'))
    (c : DirtyClass) : d'.roster c = d.roster c := by
  unfold DirtyLists.stage at h
  obtain ⟨⟨was, staged⟩, -, h⟩ := Guarded.bind_eq_ok.mp h
  cases h
  cases c <;> rfl

/-- An examined segment of the area lies in a section with a dirty segment. -/
theorem Sound.mem_dirtySections_of_examined (ha : a.Sound) {seg : ℕ}
    (hseg : seg ∈ a.examined a.backgroundPolicy) (hlt : seg < a.geometry.segments) :
    a.geometry.sectionOf seg ∈ a.dirtySections := by
  have hroster := ha.dirty.roster .dirty
  refine mem_dirtySections.mpr ⟨seg, ?_, rfl⟩
  exact Sweep.contains_of_mem_visits hroster.map _ _ hseg (by rw [hroster.size]; exact hlt)

/-- The segments that a background search prices are the examined ones that it does not pass
over. -/
theorem mem_eligible_background {seg : ℕ} {segs : List ℕ} :
    seg ∈ a.eligible .background segs ↔ seg ∈ segs ∧
      a.isOpenSection (a.geometry.sectionOf seg) = false ∧
      a.claimed ≠ some (a.geometry.sectionOf seg) ∧
      a.dirty.staged.contains (a.geometry.sectionOf seg) = false := by
  unfold eligible
  rw [List.mem_filter, Bool.not_eq_true', isPassedOver_background_eq_false_iff]

/-- A background search with something on its list selects from the segments that it examines. -/
theorem findVictim_background_eq (hbudget : a.backgroundPolicy.budget ≠ 0) {log : Option Log}
    (hcursor : ¬a.CursorOverflows .background log .wholeSection) :
    a.findVictim .background log .wholeSection =
      a.selectFrom a.backgroundPolicy .background a.backgroundPolicy.budget
        (a.examined a.backgroundPolicy) := by
  have hsearch : a.findVictim .background log .wholeSection =
      a.searchVictim a.backgroundPolicy .background :=
    findVictim_eq_searchVictim hcursor hbudget fun h => by cases h.foreground
  rw [hsearch, searchVictim_eq hbudget]

/-- The segments that a background search prices, in order: those that it examines and does not pass
over. -/
def priced (a : Area) : List ℕ := a.eligible .background (a.examined a.backgroundPolicy)

/-- The area after a background search has priced its segments, before it stages one. -/
def afterPricing (a : Area) : Area :=
  { a with
    table := a.table.widened a.geometry a.priced
    cursors := a.cursors.set .costBenefit
      (cursorAfter a.geometry.segments a.backgroundPolicy.budget (a.examined a.backgroundPolicy)) }

/-- What a background search can do that looks at something: it prices its segments in turn, and
stages the section of the cheapest one if there is one below the largest cost. -/
theorem Sound.background_search_cases (ha : a.Sound) (hbudget : a.backgroundPolicy.budget ≠ 0)
    (h : a.findVictim .background log .wholeSection = .ok (r, a')) :
    (∀ seg ∈ a.priced, seg < a.geometry.segments) ∧
      (cheapest 0xFFFF_FFFF (a.table.costsInTurn a.geometry a.priced) = none ∧
          r = .error .unavailable ∧ a' = a.afterPricing ∨
        ∃ x present dirty, cheapest 0xFFFF_FFFF (a.table.costsInTurn a.geometry a.priced) = some x ∧
          r = .ok (a.geometry.firstSegment (a.geometry.sectionOf x.1)) ∧
          a.dirty.stage (a.geometry.sectionOf x.1) = .ok (present, dirty) ∧
          a' = { a.afterPricing with dirty }) := by
  rw [findVictim_background_eq hbudget (not_overflows_of_findVictim h)] at h
  unfold selectFrom at h
  obtain ⟨bound, hbound, h⟩ := Guarded.bind_eq_ok.mp h
  obtain ⟨⟨priced, table⟩, hprice, h⟩ := Guarded.bind_eq_ok.mp h
  obtain ⟨hsegs, rfl, rfl⟩ := SegmentTable.price_costBenefit_eq ha.geometry rfl rfl ha.table.size
    hprice
  obtain rfl : 0xFFFF_FFFF = bound := Except.ok.inj hbound
  refine ⟨hsegs, ?_⟩
  dsimp only at h
  cases hcheapest : cheapest 0xFFFF_FFFF (a.table.costsInTurn a.geometry
      (a.eligible .background (a.examined a.backgroundPolicy))) with
  | none =>
    rw [hcheapest] at h
    cases h
    exact Or.inl ⟨hcheapest, rfl, rfl⟩
  | some x =>
    rw [hcheapest] at h
    obtain ⟨⟨r', a₁⟩, hclaim, h⟩ := Guarded.bind_eq_ok.mp h
    cases h
    -- The only way for the background to claim a whole section is to stage it.
    obtain ⟨-, ⟨hreuse, -⟩ | ⟨-, htrigger, -⟩ | ⟨-, -, present, dirty, hstage, rfl⟩⟩ :=
      claim_cases hclaim
    · cases hreuse
    · cases htrigger
    · refine Or.inr ⟨x, present, dirty, hcheapest, ?_, hstage, rfl⟩
      exact congrArg Except.ok (Geometry.sub_mod_eq_firstSegment a.geometry x.1)

/-- A background search that gives a result on a settled age scale. -/
theorem Sound.background_search (ha : a.Sound) (hbudget : a.backgroundPolicy.budget ≠ 0)
    (hspans : ∀ sec ∈ a.dirtySections, a.table.Spans a.geometry sec)
    (h : a.findVictim .background log .wholeSection = .ok (r, a')) : a.BackgroundStep r a' := by
  obtain ⟨hsegs, hanswer⟩ := ha.background_search_cases hbudget h
  -- The segments that are priced lie in sections with a dirty segment, so no bound is widened.
  have hpriced : ∀ seg ∈ a.priced, a.table.Spans a.geometry (a.geometry.sectionOf seg) :=
    fun seg hseg => hspans _
      (ha.mem_dirtySections_of_examined (mem_eligible_background.mp hseg).1 (hsegs seg hseg))
  have htable : a.afterPricing.table = a.table := SegmentTable.widened_eq_self hpriced
  rw [SegmentTable.costsInTurn_eq_map hpriced] at hanswer
  rcases hanswer with ⟨hcheapest, rfl, rfl⟩ | ⟨x, present, dirty, hcheapest, rfl, hstage, rfl⟩
  · refine ⟨⟨rfl, rfl, htable, rfl, rfl, fun _ => rfl⟩, rfl, Or.inl ⟨rfl, rfl, ?_⟩⟩
    rintro _ ⟨seg, hseg, rfl⟩ hsec
    -- The segment was not passed over, so it was priced below the bound.
    have hmem : seg ∈ a.priced := mem_eligible_background.mpr
      ⟨hseg, hsec.closed, hsec.unclaimed, hsec.unstaged⟩
    have hle := cheapest_eq_none_iff.mp hcheapest _ (List.mem_map_of_mem hmem)
    exact absurd hsec.worthwhile (Nat.not_lt.mpr hle)
  · obtain ⟨hmem, hlt, -⟩ := cheapest_eq_some hcheapest
    obtain ⟨seg, hseg, rfl⟩ := List.mem_map.mp hmem
    obtain ⟨hexamined, hclosed, hunclaimed, hunstaged⟩ := mem_eligible_background.mp hseg
    have hin := hsegs seg hseg
    have hcollectable : a.Collectable (a.geometry.sectionOf seg) :=
      ⟨ha.mem_dirtySections_of_examined hexamined hin, hclosed, hunclaimed, hunstaged, hlt⟩
    obtain ⟨dirty', hstage', -, -, hstaged⟩ := DirtyLists.stage_spec ha.dirty
      (Geometry.sectionOf_lt ha.geometry hin)
    cases hstage'.symm.trans hstage
    exact ⟨⟨rfl, rfl, htable, rfl, rfl, roster_of_stage hstage⟩, rfl,
      Or.inr ⟨a.geometry.sectionOf seg, rfl, hcollectable, hstaged⟩⟩

/-! ## The order of background searches -/

/-- The sections with a dirty segment in the order in which a background search comes to them. -/
def order (a : Area) : List ℕ :=
  Sweep.cycle (a.dirty.roster .dirty).map a.geometry.segmentsPerSection a.backgroundPolicy.offset

/-- Each section with a dirty segment comes once in the order. -/
theorem Sound.length_order (ha : a.Sound) : a.order.length = a.dirtySections.card := by
  rw [ha.card_dirtySections]
  exact Sweep.length_cycle ha.geometry.perSection_pos _ _

/-- The sections with a dirty segment are those in the order. -/
theorem Sound.mem_order (ha : a.Sound) : sec ∈ a.order ↔ sec ∈ a.dirtySections := by
  rw [ha.mem_dirtySections_iff]
  unfold order
  rw [Sweep.cycle_eq_rotate ha.geometry.perSection_pos, List.mem_rotate]

/-- The first segments that a search examines lie in the first sections of the order. -/
theorem Sound.take_examined (ha : a.Sound) {n : ℕ} (hn : n ≤ a.backgroundPolicy.budget)
    (hcard : n ≤ a.dirtySections.card) :
    ((a.examined a.backgroundPolicy).take n).map a.geometry.sectionOf = a.order.take n := by
  have hroster := ha.dirty.roster .dirty
  rw [ha.card_dirtySections] at hcard
  have hvisits := Sweep.visits_map_div hroster.map ha.geometry.perSection_pos ha.dvd_size_roster
    a.backgroundPolicy.offset hcard
  rw [hroster.size] at hvisits
  unfold examined
  rw [Sweep.visits_take _ _ _ _ hn]
  exact hvisits

/-- A background search examines the first sections of the order, as many as its budget allows. -/
theorem Sound.examines_of_mem_take (ha : a.Sound)
    (h : sec ∈ a.order.take a.backgroundPolicy.budget) : a.Examines sec := by
  have htake := ha.take_examined (Nat.min_le_left a.backgroundPolicy.budget a.dirtySections.card)
    (Nat.min_le_right _ _)
  have hsame : a.order.take a.backgroundPolicy.budget =
      a.order.take (min a.backgroundPolicy.budget a.dirtySections.card) := by
    rw [List.take_eq_take_iff, ha.length_order]
    omega
  rw [hsame, ← htake] at h
  obtain ⟨seg, hseg, hsec⟩ := List.mem_map.mp h
  exact ⟨seg, List.mem_of_mem_take hseg, hsec⟩

/-- A background search with a budget for no more than the sections with a dirty segment uses it up.
-/
theorem Sound.length_examined (ha : a.Sound)
    (hcard : a.backgroundPolicy.budget ≤ a.dirtySections.card) :
    (a.examined a.backgroundPolicy).length = a.backgroundPolicy.budget := by
  have hle : (a.examined a.backgroundPolicy).length ≤ a.backgroundPolicy.budget :=
    Sweep.length_visits_le _ _ _ _ _
  have htake := congrArg List.length (ha.take_examined le_rfl hcard)
  rw [List.length_map, List.length_take, List.length_take, ha.length_order] at htake
  omega

/-- The last segment that such a search examines is one of the area, and lies in the section of the
order that the budget goes up to. -/
theorem Sound.exists_last_examined (ha : a.Sound)
    (hcard : a.backgroundPolicy.budget ≤ a.dirtySections.card) {n : ℕ}
    (hn : a.backgroundPolicy.budget = n + 1) :
    ∃ seg < a.geometry.segments, (a.examined a.backgroundPolicy).getLastD 0 = seg ∧
      a.order[n]? = some (a.geometry.sectionOf seg) := by
  have hlength := ha.length_examined hcard
  have htake := ha.take_examined le_rfl hcard
  rw [List.take_of_length_le hlength.le] at htake
  obtain ⟨seg, hseg⟩ : ∃ seg, (a.examined a.backgroundPolicy)[n]? = some seg :=
    ⟨_, List.getElem?_eq_getElem (by omega)⟩
  have hsec : a.order[n]? = some (a.geometry.sectionOf seg) := by
    have hplace := congrArg (fun l => l[n]?) htake
    simp only [List.getElem?_map, hseg, Option.map_some] at hplace
    rw [List.getElem?_take_of_lt (by omega)] at hplace
    exact hplace.symm
  refine ⟨seg, ?_, ?_, hsec⟩
  · obtain ⟨s, hs, hsame⟩ := mem_dirtySections.mp (ha.mem_order.mp (List.mem_of_getElem? hsec))
    refine Geometry.lt_segments_of_sectionOf ha.geometry ?_ hsame.symm
    exact Geometry.sectionOf_lt ha.geometry (DirtyLists.lt_of_contains ha.dirty hs)
  · rw [List.getLastD_eq_getLast?, List.getLast?_eq_getElem?, hlength, hn, Nat.succ_sub_one, hseg]
    rfl

/-- A background search with a budget for no more than the sections with a dirty segment examines
the first of them in the order, and the next one goes on behind the last of these. -/
theorem Sound.order_next (ha : a.Sound) (hbudget : a.backgroundPolicy.budget ≠ 0)
    (hcard : a.backgroundPolicy.budget ≤ a.dirtySections.card) (h : a.BackgroundStep r a') :
    a'.order = a.order.rotate a.backgroundPolicy.budget := by
  have hsize := (ha.dirty.roster .dirty).size
  obtain ⟨n, hn⟩ := Nat.exists_eq_succ_of_ne_zero hbudget
  obtain ⟨seg, hin, hlast, hsec⟩ := ha.exists_last_examined hcard hn
  rw [← hsize] at hin
  have hcursor : a'.backgroundPolicy.offset =
      roundCursor a.geometry.segmentsPerSection (a.dirty.roster .dirty).map.size
        ((seg + 1) % (a.dirty.roster .dirty).map.size) := by
    have hoffset : a'.backgroundPolicy.offset = roundCursor a'.geometry.segmentsPerSection
        a'.geometry.segments a'.cursors.costBenefit := rfl
    rw [hoffset, h.still.geometry, h.cursor, hsize]
    unfold cursorAfter
    rw [if_pos (ha.length_examined hcard), hlast]
  have hcycle := Sweep.cycle_roundCursor ha.geometry.perSection_pos ha.dvd_size_roster
    a.backgroundPolicy.offset (n := n) (by rw [← ha.card_dirtySections]; omega) hin hsec
  unfold order
  rw [h.still.roster, h.still.geometry, hcursor, hcycle, hn]

end Area

end Reclaim
