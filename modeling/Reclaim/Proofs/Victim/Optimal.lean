import Reclaim.Proofs.Victim.Background

/-!
# The best section for a foreground search

A foreground search whose limit covers every dirty segment looks at one segment of each section with
a dirty one, wherever in the area its cursor stands (`Area.Sound.examined_eq_candidates`). Its price
is the number of live blocks in the section, which is always below the largest cost, so nothing is
left out. The search therefore answers with a section of the fewest live blocks among all that it
may take, and fails only if there is none (`Area.findVictim_foreground_optimal`).
-/

namespace Reclaim

namespace SegmentTable

variable {t : SegmentTable} {g : Geometry} {p : Policy}

/-- Pricing segments that all have a cost which leaves the table as it is. -/
theorem price_eq_map {cost : ℕ → ℕ} : ∀ {segs : List ℕ},
    (∀ seg ∈ segs, t.cost g seg p = .ok (cost seg, t)) →
      t.price g p segs = .ok (segs.map fun seg => (seg, cost seg), t)
  | [], _ => rfl
  | seg :: segs, h => by
    unfold price
    rw [h seg List.mem_cons_self, Guarded.ok_bind]
    dsimp only
    rw [price_eq_map fun s hs => h s (List.mem_cons_of_mem _ hs)]
    rfl

/-- The greedy cost of a segment is the number of live blocks in its section. -/
theorem cost_greedy (hg : g.Valid) (hsize : t.records.size = g.segments) {seg : ℕ}
    (hseg : seg < g.segments) (hwhole : p.reuse = .wholeSection) (hgreedy : p.ranking = .greedy)
    (hunit : p.unit = g.segmentsPerSection) :
    t.cost g seg p = .ok (t.sectionTotal g (g.sectionOf seg), t) := by
  have hlive : t.liveBlocks g seg (1 < p.unit) = .ok (t.sectionTotal g (g.sectionOf seg)) := by
    rw [← sectionLive_eq hg hsize hseg, hunit]
    unfold liveBlocks
    split_ifs with hone
    · rfl
    · -- A section of one segment is counted by its segment.
      have hpos := hg.perSection_pos
      unfold sectionLive
      rw [if_pos (by simp only [decide_eq_true_eq] at hone; omega)]
  unfold cost
  rw [hwhole, hgreedy]
  dsimp only
  rw [hlive]
  rfl

end SegmentTable

namespace Area

variable {a : Area} {sec : ℕ}

/-- A section that a foreground search may take when none is staged. -/
structure Reclaimable (a : Area) (sec : ℕ) : Prop where
  /-- The section has a dirty segment. -/
  dirty : sec ∈ a.dirtySections
  /-- No log writes into the section. -/
  closed : a.isOpenSection sec = false
  /-- The section is not under collection. -/
  unclaimed : a.claimed ≠ some sec

/-- The policy of foreground searches that reclaim whole sections. -/
def foregroundPolicy (a : Area) : Policy := a.policy .foreground none .wholeSection

/-- A foreground search passes a section over when it is open or under collection. -/
theorem isPassedOver_foreground_eq_false_iff :
    a.isPassedOver .foreground sec = false ↔
      a.isOpenSection sec = false ∧ a.claimed ≠ some sec := by
  unfold isPassedOver
  rw [Bool.or_eq_false_iff, isBusySection_eq_false_iff]
  simp

/-- With a limit that covers every dirty segment, a foreground search examines all candidates. -/
theorem Sound.examined_eq_candidates (ha : a.Sound)
    (hlimit : a.dirty.count .dirty ≤ a.searchLimit)
    (hcursor : a.cursors.greedy < a.geometry.segments) :
    a.examined a.foregroundPolicy = Sweep.candidates (a.dirty.roster .dirty).map
      a.geometry.segmentsPerSection (a.resumption a.foregroundPolicy) := by
  have hunit := ha.geometry.perSection_pos
  have hcount : (a.dirty.roster .dirty).map.toFinset.card ≤ a.searchLimit := by
    rw [← (ha.dirty.roster .dirty).count_eq]
    exact hlimit
  -- No unit has two candidates, and each is a dirty segment, so the budget covers them.
  have hnodup := Sweep.nodup_candidates hunit (a.dirty.roster .dirty).map
    (a.resumption a.foregroundPolicy)
  have hsubset : (Sweep.candidates (a.dirty.roster .dirty).map a.geometry.segmentsPerSection
      (a.resumption a.foregroundPolicy)).toFinset ⊆ (a.dirty.roster .dirty).map.toFinset := by
    intro seg hseg
    rw [Bitmap.mem_toFinset]
    exact Sweep.of_mem_firsts hunit (List.mem_toFinset.mp hseg)
  have hlength := Finset.card_le_card hsubset
  rw [List.toFinset_card_of_nodup hnodup] at hlength
  have hexamined : a.examined a.foregroundPolicy = a.firstCandidates a.foregroundPolicy :=
    ha.examined_eq hcursor
  rw [hexamined]
  exact List.take_of_length_le (le_min hlength (hlength.trans hcount))

/-- With such a limit, the sections with an eligible segment are those that may be taken. -/
theorem Sound.reclaimable_iff (ha : a.Sound) (hlimit : a.dirty.count .dirty ≤ a.searchLimit)
    (hcursor : a.cursors.greedy < a.geometry.segments) :
    a.Reclaimable sec ↔
      ∃ seg ∈ a.eligible .foreground (a.examined a.foregroundPolicy),
        a.geometry.sectionOf seg = sec := by
  have hunit := ha.geometry.perSection_pos
  have helig : ∀ seg, seg ∈ a.eligible .foreground (a.examined a.foregroundPolicy) ↔
      seg ∈ a.examined a.foregroundPolicy ∧
        a.isOpenSection (a.geometry.sectionOf seg) = false ∧
        a.claimed ≠ some (a.geometry.sectionOf seg) := by
    intro seg
    unfold eligible
    rw [List.mem_filter, Bool.not_eq_true', isPassedOver_foreground_eq_false_iff]
  rw [ha.examined_eq_candidates hlimit hcursor] at helig ⊢
  constructor
  · rintro ⟨hdirty, hclosed, hunclaimed⟩
    obtain ⟨s, hs, rfl⟩ := mem_dirtySections.mp hdirty
    obtain ⟨seg, hseg, hsame⟩ := Sweep.exists_mem_candidates hunit ha.dvd_size_roster hs
      (a.resumption a.foregroundPolicy)
    have hsec : a.geometry.sectionOf seg = a.geometry.sectionOf s := hsame
    refine ⟨seg, (helig seg).mpr ⟨hseg, ?_, ?_⟩, hsec⟩
    · rw [hsec]
      exact hclosed
    · rw [hsec]
      exact hunclaimed
  · rintro ⟨seg, hseg, rfl⟩
    obtain ⟨hmem, hclosed, hunclaimed⟩ := (helig seg).mp hseg
    have hlisted : (a.dirty.roster .dirty).map.contains seg = true := Sweep.of_mem_firsts hunit hmem
    exact ⟨mem_dirtySections.mpr ⟨seg, hlisted, rfl⟩, hclosed, hunclaimed⟩

/-- The largest cost of a foreground search is twice the blocks of a section. -/
theorem Sound.maxCost_foreground (ha : a.Sound) :
    a.foregroundPolicy.maxCost a.geometry = .ok (2 * a.geometry.sectionBlocks) := by
  obtain ⟨bound, hbound⟩ := ha.maxCost_eq (p := a.foregroundPolicy) fun _ => rfl
  have hvalue : 2 * a.geometry.segmentBlocks * a.geometry.segmentsPerSection = bound :=
    (Guarded.fit32_eq_ok.mp hbound).2
  rw [hbound, ← hvalue]
  exact congrArg Except.ok (Nat.mul_assoc ..)

/-- When nothing is staged, a foreground search scans its list. -/
theorem Sound.not_takesOver (ha : a.Sound)
    (hunstaged : ∀ sec, a.dirty.staged.contains sec = false) (log : Option Log) :
    ¬a.TakesOver .foreground log .wholeSection := by
  rintro ⟨-, -, -, hstaged⟩
  obtain ⟨sec, hfind⟩ := Option.ne_none_iff_exists'.mp hstaged
  have hmem := (Bitmap.mem_toList ha.dirty.staged sec).mp (List.mem_of_find?_eq_some hfind)
  rw [hunstaged sec] at hmem
  cases hmem

/-- A section that may be taken is one of the area. -/
theorem Reclaimable.lt_sections (ha : a.Sound) (h : a.Reclaimable sec) :
    sec < a.geometry.sections := by
  obtain ⟨seg, hseg, rfl⟩ := mem_dirtySections.mp h.dirty
  exact Geometry.sectionOf_lt ha.geometry (DirtyLists.lt_of_contains ha.dirty hseg)

/-- No section has as many live blocks as the largest cost of a foreground search. -/
theorem Sound.sectionTotal_lt_maxCost (ha : a.Sound) (hsec : sec < a.geometry.sections) :
    a.table.sectionTotal a.geometry sec < 2 * a.geometry.sectionBlocks := by
  have hle := SegmentTable.sectionTotal_le ha.geometry ha.table.capped hsec
  have hpos : 0 < a.geometry.sectionBlocks :=
    Nat.mul_pos (Geometry.segmentBlocks_pos ha.geometry) ha.geometry.perSection_pos
  omega

/-- Nothing may be taken when no segment is dirty. -/
theorem Sound.not_reclaimable_of_count_eq_zero (ha : a.Sound)
    (hcount : a.dirty.count .dirty = 0) (sec : ℕ) : ¬a.Reclaimable sec := by
  rintro ⟨hdirty, -, -⟩
  obtain ⟨seg, hseg, -⟩ := mem_dirtySections.mp hdirty
  have hempty := (ha.dirty.roster .dirty).count_eq.symm.trans hcount
  rw [Finset.card_eq_zero] at hempty
  have hmem : seg ∈ (a.dirty.roster .dirty).map.toFinset := Bitmap.mem_toFinset.mpr hseg
  rw [hempty] at hmem
  cases hmem

/-- The eligible segments with the live blocks of their sections. -/
def livePrices (a : Area) : List (ℕ × ℕ) :=
  (a.eligible .foreground (a.examined a.foregroundPolicy)).map fun seg =>
    (seg, a.table.sectionTotal a.geometry (a.geometry.sectionOf seg))

/-- A search that has a limit which covers every dirty segment prices the eligible segments by the
live blocks of their sections. -/
theorem Sound.price_foreground (ha : a.Sound) (hlimit : a.dirty.count .dirty ≤ a.searchLimit)
    (hcursor : a.cursors.greedy < a.geometry.segments) :
    a.table.price a.geometry a.foregroundPolicy
        (a.eligible .foreground (a.examined a.foregroundPolicy)) =
      .ok (a.livePrices, a.table) := by
  refine SegmentTable.price_eq_map fun seg hseg => ?_
  have hsec : a.Reclaimable (a.geometry.sectionOf seg) :=
    (ha.reclaimable_iff hlimit hcursor).mpr ⟨seg, hseg, rfl⟩
  have hseg : seg < a.geometry.segments :=
    Geometry.lt_segments_of_sectionOf ha.geometry (hsec.lt_sections ha) rfl
  exact SegmentTable.cost_greedy ha.geometry ha.table.size hseg rfl rfl rfl

/-- In an area that a run from a created one reaches, when no section is staged, the limit covers
the dirty segments, and the cursor stands anywhere in the area, a foreground search gives an answer:
none exactly when there is no section with a dirty segment that is neither open nor under
collection, and otherwise the first segment of such a section with the fewest live blocks. -/
theorem findVictim_foreground_optimal (ha : a.Reachable) (log : Option Log)
    (hunstaged : ∀ sec, a.dirty.staged.contains sec = false)
    (hlimit : a.dirty.count .dirty ≤ a.searchLimit)
    (hcursor : a.cursors.greedy < a.geometry.segments) :
    ∃ r a', a.findVictim .foreground log .wholeSection = .ok (r, a') ∧
      (r = .error .unavailable ↔ ∀ sec, ¬a.Reclaimable sec) ∧
      ((∃ sec, a.Reclaimable sec) →
        ∃ sec, r = .ok (a.geometry.firstSegment sec) ∧ a.Reclaimable sec ∧
          ∀ sec', a.Reclaimable sec' →
            a.table.sectionTotal a.geometry sec ≤ a.table.sectionTotal a.geometry sec') := by
  have hsound := ha.sound
  have hreclaimable : ∀ sec, a.Reclaimable sec ↔
      ∃ seg ∈ a.eligible .foreground (a.examined a.foregroundPolicy),
        a.geometry.sectionOf seg = sec := fun _ => hsound.reclaimable_iff hlimit hcursor
  have hpolicy : a.policy .foreground log .wholeSection = a.foregroundPolicy := rfl
  have hrounded : ¬a.CursorOverflows .foreground log .wholeSection :=
    hsound.not_cursorOverflows hcursor
  by_cases hbudget : (a.policy .foreground log .wholeSection).budget = 0
  · have hcount : a.dirty.count .dirty = 0 := by
      have hmin : min (a.dirty.count .dirty) a.searchLimit = 0 := hbudget
      have hpos := ha.searchLimit_pos
      omega
    have hnone := hsound.not_reclaimable_of_count_eq_zero hcount
    refine ⟨.error .unavailable, a, findVictim_eq_unavailable hrounded hbudget,
      iff_of_true rfl hnone, ?_⟩
    rintro ⟨sec, hsec⟩
    exact absurd hsec (hnone sec)
  · rw [findVictim_eq_searchVictim hrounded hbudget (hsound.not_takesOver hunstaged log),
      searchVictim_eq hbudget, hpolicy]
    unfold selectFrom
    rw [hsound.maxCost_foreground, Guarded.ok_bind, hsound.price_foreground hlimit hcursor,
      Guarded.ok_bind]
    dsimp only
    cases hcheapest : cheapest (2 * a.geometry.sectionBlocks) a.livePrices with
    | none =>
      -- Every section that may be taken is priced below the largest cost.
      have hnone : ∀ sec, ¬a.Reclaimable sec := by
        intro sec hsec
        obtain ⟨seg, hseg, rfl⟩ := (hreclaimable sec).mp hsec
        have hle := cheapest_eq_none_iff.mp hcheapest _ (List.mem_map_of_mem hseg)
        have hlt := hsound.sectionTotal_lt_maxCost (hsec.lt_sections hsound)
        exact absurd hlt (Nat.not_lt.mpr hle)
      refine ⟨_, _, rfl, iff_of_true rfl hnone, ?_⟩
      rintro ⟨sec, hsec⟩
      exact absurd hsec (hnone sec)
    | some x =>
      obtain ⟨hmem, -, hleast⟩ := cheapest_eq_some hcheapest
      obtain ⟨seg, hseg, rfl⟩ := List.mem_map.mp hmem
      have hsec := (hreclaimable _).mpr ⟨seg, hseg, rfl⟩
      refine ⟨_, _, rfl, iff_of_false nofun fun hnone => hnone _ hsec, fun _ => ?_⟩
      refine ⟨a.geometry.sectionOf seg, ?_, hsec, fun sec' hsec' => ?_⟩
      · exact congrArg Except.ok (Geometry.sub_mod_eq_firstSegment a.geometry seg)
      · obtain ⟨seg', hseg', rfl⟩ := (hreclaimable sec').mp hsec'
        exact hleast _ (List.mem_map_of_mem hseg')

/-- A search for slots has left the cursor inside the section with the fewest live blocks, and two
sections may be taken. -/
theorem findVictim_foreground_optimal_inside : ∃ a : Area, a.Reachable ∧ a.cursors.greedy = 13 ∧
    a.geometry.segmentsPerSection = 2 ∧ a.Reclaimable 0 ∧ a.Reclaimable 6 ∧
    ∃ sec a', a.findVictim .foreground none .wholeSection =
        .ok (.ok (a.geometry.firstSegment sec), a') ∧
      a.Reclaimable sec ∧ ∀ sec', a.Reclaimable sec' →
        a.table.sectionTotal a.geometry sec ≤ a.table.sectionTotal a.geometry sec' := by
  obtain ⟨a₀, events, a, hcreate, hrun, h⟩ := Run.of_reaches
    { tinyLayout with segmentsPerSection := 2, segments := 18 }
    (List.replicate 8 (.allocate (some Log.hotData) 5) ++ [.invalidate 88,
      .search .background (some Log.hotData) .slots, .invalidate 90, .invalidate 64])
    (fun _ a => a.cursors.greedy = 13 && a.geometry.segmentsPerSection = 2 &&
      a.geometry.segments = 18 && a.dirty.staged.toList = [] &&
      decide (a.dirty.count .dirty ≤ a.searchLimit) &&
      ([0, 12].all fun seg => a.dirty.contains .dirty seg &&
        !a.isOpenSection (a.geometry.sectionOf seg) &&
        a.claimed ≠ some (a.geometry.sectionOf seg)))
    (by decide +kernel)
  simp only [Bool.and_eq_true, decide_eq_true_eq, List.all_eq_true, Bool.not_eq_true'] at h
  obtain ⟨⟨⟨⟨⟨hcursor, hunit⟩, hsegments⟩, hstaged⟩, hlimit⟩, hsections⟩ := h
  have hreachable : a.Reachable := ⟨_, a₀, events, hcreate, hrun⟩
  have hunstaged : ∀ sec, a.dirty.staged.contains sec = false := by
    intro sec
    by_contra hsec
    have hmem := (Bitmap.mem_toList hreachable.sound.dirty.staged sec).mpr
      (Bool.eq_true_of_not_eq_false hsec)
    rw [hstaged] at hmem
    cases hmem
  have hmay : ∀ seg ∈ [0, 12], a.Reclaimable (a.geometry.sectionOf seg) := by
    intro seg hseg
    obtain ⟨⟨hdirty, hclosed⟩, hunclaimed⟩ := hsections seg hseg
    exact ⟨mem_dirtySections.mpr ⟨seg, hdirty, rfl⟩, hclosed, hunclaimed⟩
  have hzero : a.Reclaimable 0 := by
    have hsec := hmay 0 (by decide)
    unfold Geometry.sectionOf at hsec
    rwa [hunit] at hsec
  have hsix : a.Reclaimable 6 := by
    have hsec := hmay 12 (by decide)
    unfold Geometry.sectionOf at hsec
    rwa [hunit] at hsec
  obtain ⟨r, a', hfind, -, hbest⟩ := findVictim_foreground_optimal hreachable none hunstaged hlimit
    (by omega)
  obtain ⟨sec, rfl, hsec⟩ := hbest ⟨0, hzero⟩
  exact ⟨a, hreachable, hcursor, hunit, hzero, hsix, sec, a', hfind, hsec⟩

end Area

end Reclaim
