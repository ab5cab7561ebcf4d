import Reclaim.Area.FreeMap
import Reclaim.Proofs.Bitmap
import Reclaim.Proofs.Geometry
import Reclaim.Proofs.Guarded

/-!
# Taking and releasing segments

A well-formed free map counts what is free, and has a section in use exactly when one of its
segments is. `take_spec` and `release_spec` keep this while a segment goes into use or out of it,
and `find?_spec` says that the search for a free section finds one if there is one.
-/

namespace Reclaim.FreeMap

/-- Free maps over an area that agree with each other and count what is free. -/
structure WellFormed (f : FreeMap) (g : Geometry) : Prop where
  /-- The map of segments is well formed. -/
  segments : f.usedSegments.WellFormed
  /-- The map of segments has a number for each segment. -/
  segments_size : f.usedSegments.size = g.segments
  /-- The map of sections is well formed. -/
  sections : f.usedSections.WellFormed
  /-- The map of sections has a number for each section. -/
  sections_size : f.usedSections.size = g.sections
  /-- The segments that are not in use are counted. -/
  free_segments : f.freeSegments + f.usedSegments.toFinset.card = g.segments
  /-- The sections that are not in use are counted. -/
  free_sections : f.freeSections + f.usedSections.toFinset.card = g.sections
  /-- A section is in use when one of its segments is. -/
  section_used : ∀ sec, f.usedSections.contains sec = true ↔
    ∃ seg, g.sectionOf seg = sec ∧ f.usedSegments.contains seg = true

variable {f : FreeMap} {g : Geometry} {seg : ℕ}

/-- Segments in use are segments of the area. -/
theorem lt_of_used (hf : f.WellFormed g) (h : f.usedSegments.contains seg = true) :
    seg < g.segments := by
  rw [← hf.segments_size]
  exact Bitmap.lt_size_of_contains h

/-- At first everything is free. -/
theorem wellFormed_empty (g : Geometry) : (empty g).WellFormed g := by
  have hnone : ∀ n, (Bitmap.empty n).toFinset = ∅ := by
    intro n
    ext i
    simp
  refine ⟨Bitmap.wellFormed_empty _, rfl, Bitmap.wellFormed_empty _, rfl, ?_, ?_, ?_⟩
  · show g.segments + (Bitmap.empty g.segments).toFinset.card = g.segments
    rw [hnone, Finset.card_empty, Nat.add_zero]
  · show g.sections + (Bitmap.empty g.sections).toFinset.card = g.sections
    rw [hnone, Finset.card_empty, Nat.add_zero]
  · intro sec
    simp [empty]

/-- Inserting a number into a map over `total` numbers takes one from the free ones, unless it was
in use. -/
theorem insert_counted {b : Bitmap} (hb : b.WellFormed) {total free i : ℕ} (hsize : b.size = total)
    (hfree : free + b.toFinset.card = total) (hi : i < total) :
    ∃ b' free', b.insert i = .ok (b.contains i, b') ∧
      (if b.contains i then pure free else Guarded.minus free 1) = (.ok free' : Guarded ℕ) ∧
      b'.WellFormed ∧ b'.size = total ∧ free' + b'.toFinset.card = total ∧
      ∀ j, b'.contains j = true ↔ j = i ∨ b.contains j = true := by
  obtain ⟨b', hins, hb', hsize', hmem⟩ := Bitmap.insert_spec hb (hsize ▸ hi)
  have hset : b'.toFinset = insert i b.toFinset := by
    ext j
    simp [hmem]
  have hmem' : ∀ j, b'.contains j = true ↔ j = i ∨ b.contains j = true := by
    intro j
    rw [hmem, Bool.or_eq_true, decide_eq_true_iff]
  cases hin : b.contains i with
  | true =>
    refine ⟨b', free, by rw [hins, hin], rfl, hb', by rw [hsize', hsize], ?_, hmem'⟩
    rw [hset, Finset.insert_eq_of_mem (by simpa using hin), hfree]
  | false =>
    have hcard : b'.toFinset.card = b.toFinset.card + 1 := by
      rw [hset, Finset.card_insert_of_notMem (by simp [hin])]
    -- The number was free, so not all numbers are in use.
    have hle : b'.toFinset.card ≤ total := by
      calc b'.toFinset.card ≤ (Finset.range b'.size).card := Finset.card_filter_le _ _
        _ = total := by rw [Finset.card_range, hsize', hsize]
    refine ⟨b', free - 1, by rw [hins, hin], ?_, hb', by rw [hsize', hsize], by omega, hmem'⟩
    rw [if_neg Bool.false_ne_true, Guarded.minus_eq (by omega)]

/-- Taking a segment of the area puts it and its section into use. -/
theorem take_spec (hg : g.Valid) (hf : f.WellFormed g) (hseg : seg < g.segments) :
    ∃ f', f.take g seg = .ok f' ∧ f'.WellFormed g ∧
      ∀ s, f'.usedSegments.contains s = true ↔ s = seg ∨ f.usedSegments.contains s = true := by
  obtain ⟨segs, freeSegs, hins, hcount, hsegs, hsize, hfree, hmem⟩ :=
    insert_counted hf.segments hf.segments_size hf.free_segments hseg
  obtain ⟨secs, freeSecs, hins', hcount', hsecs, hsize', hfree', hmem'⟩ :=
    insert_counted hf.sections hf.sections_size hf.free_sections (Geometry.sectionOf_lt hg hseg)
  refine ⟨⟨segs, secs, freeSegs, freeSecs⟩, ?_,
    ⟨hsegs, hsize, hsecs, hsize', hfree, hfree', ?_⟩, hmem⟩
  · unfold take
    rw [hins, Guarded.ok_bind]
    refine (Guarded.ite_bind _ _ _ _).trans ?_
    rw [hcount, Guarded.ok_bind]
    dsimp only
    rw [hins', Guarded.ok_bind]
    refine (Guarded.ite_bind _ _ _ _).trans ?_
    rw [hcount', Guarded.ok_bind]
    rfl
  · -- The section of the segment is in use for the segment, and the others are as before.
    intro sec
    dsimp only
    rw [hmem', hf.section_used]
    constructor
    · rintro (rfl | ⟨s, hs, hused⟩)
      · exact ⟨seg, rfl, (hmem seg).mpr (Or.inl rfl)⟩
      · exact ⟨s, hs, (hmem s).mpr (Or.inr hused)⟩
    · rintro ⟨s, hs, hused⟩
      rcases (hmem s).mp hused with rfl | hused
      · exact Or.inl hs.symm
      · exact Or.inr ⟨s, hs, hused⟩

/-- Erasing a number in use from a map over `total` numbers gives one to the free ones. -/
theorem erase_counted {b : Bitmap} (hb : b.WellFormed) {total free i : ℕ} (hsize : b.size = total)
    (hfree : free + b.toFinset.card = total) (hin : b.contains i = true) :
    ∃ b', b.erase i = .ok (true, b') ∧ b'.WellFormed ∧ b'.size = total ∧
      free + 1 + b'.toFinset.card = total ∧
      ∀ j, b'.contains j = true ↔ j ≠ i ∧ b.contains j = true := by
  obtain ⟨b', hera, hb', hsize', hmem⟩ := Bitmap.erase_spec hb (Bitmap.lt_size_of_contains hin)
  have hset : b'.toFinset = b.toFinset.erase i := by
    ext j
    simp [hmem]
  have hcard := Finset.card_erase_add_one (Bitmap.mem_toFinset.mpr hin)
  rw [← hset] at hcard
  refine ⟨b', by rw [hera, hin], hb', by rw [hsize', hsize], by omega, fun j => ?_⟩
  rw [hmem, Bool.and_eq_true, Bool.not_eq_true', decide_eq_false_iff_not]

/-- The range of a section has a next segment in use exactly when the section has one at all. -/
theorem next_lt_iff (hg : g.Valid) {b : Bitmap} (hb : b.WellFormed) (hsize : b.size = g.segments)
    {sec : ℕ} (hsec : sec < g.sections) :
    b.next (g.firstSegment sec) (g.firstSegment sec + g.segmentsPerSection) <
        g.firstSegment sec + g.segmentsPerSection ↔
      ∃ s, g.sectionOf s = sec ∧ b.contains s = true := by
  have hend := Geometry.section_end_le hg hsec
  obtain ⟨hle, hnone, hfound⟩ := Bitmap.next_spec hb (g.firstSegment sec)
    (g.firstSegment sec + g.segmentsPerSection)
  rw [Nat.min_eq_left (by rw [hsize]; exact hend)] at hle hfound
  constructor
  · intro hr
    obtain ⟨hge, hused⟩ := hfound hr
    exact ⟨_, (Geometry.section_range_iff hg).mp ⟨hge, hr⟩, hused⟩
  · rintro ⟨s, hs, hused⟩
    obtain ⟨hge, hlt⟩ := (Geometry.section_range_iff hg).mpr hs
    by_contra hr
    rw [hnone s hge (by omega)] at hused
    cases hused

/-- Releasing a segment of the area frees it, and tells whether it was in use. -/
theorem release_spec (hg : g.Valid) (hf : f.WellFormed g) (hseg : seg < g.segments) :
    ∃ f', f.release g seg = .ok (f.usedSegments.contains seg, f') ∧ f'.WellFormed g ∧
      ∀ s, f'.usedSegments.contains s = true ↔ s ≠ seg ∧ f.usedSegments.contains s = true := by
  cases hin : f.usedSegments.contains seg with
  | false =>
    obtain ⟨segs, hera, -, -, -⟩ := Bitmap.erase_spec hf.segments
      (show seg < f.usedSegments.size by rw [hf.segments_size]; exact hseg)
    -- A segment that is free already is left alone.
    unfold release
    rw [hera, Guarded.ok_bind, hin]
    refine ⟨f, rfl, hf, fun s => ?_⟩
    by_cases hs : s = seg
    · simp [hs, hin]
    · simp [hs]
  | true =>
    obtain ⟨segs, hera, hsegs, hsize, hfree, hmem⟩ :=
      erase_counted hf.segments hf.segments_size hf.free_segments hin
    have hsec := Geometry.sectionOf_lt hg hseg
    have hrest := next_lt_iff hg hsegs hsize hsec
    unfold release
    rw [hera, Guarded.ok_bind]
    dsimp only
    rw [if_pos rfl]
    generalize segs.next (g.firstSegment (g.sectionOf seg))
      (g.firstSegment (g.sectionOf seg) + g.segmentsPerSection) = r at hrest ⊢
    by_cases hr : r < g.firstSegment (g.sectionOf seg) + g.segmentsPerSection
    · -- Another segment of the section is in use, so the section stays in use.
      rw [if_pos hr]
      refine ⟨_, rfl, ⟨hsegs, hsize, hf.sections, hf.sections_size, hfree, hf.free_sections,
        fun k => ?_⟩, hmem⟩
      dsimp only
      rw [hf.section_used]
      constructor
      · rintro ⟨s, hs, hused⟩
        by_cases hseq : s = seg
        · rw [hseq] at hs
          rw [← hs]
          exact hrest.mp hr
        · exact ⟨s, hs, (hmem s).mpr ⟨hseq, hused⟩⟩
      · rintro ⟨s, hs, hused⟩
        exact ⟨s, hs, ((hmem s).mp hused).2⟩
    · -- The segment was the last of its section in use, so the section is freed.
      rw [if_neg hr]
      have hsecused := (hf.section_used _).mpr ⟨seg, rfl, hin⟩
      obtain ⟨secs, hera', hsecs, hsize', hfree', hmem'⟩ :=
        erase_counted hf.sections hf.sections_size hf.free_sections hsecused
      rw [hera', Guarded.ok_bind]
      refine ⟨_, rfl, ⟨hsegs, hsize, hsecs, hsize', hfree, hfree', fun k => ?_⟩, hmem⟩
      dsimp only
      rw [hmem', hf.section_used]
      -- The section goes, since a segment in use there would have been met; the others stay.
      constructor
      · rintro ⟨hk, s, hs, hused⟩
        refine ⟨s, hs, (hmem s).mpr ⟨?_, hused⟩⟩
        rintro rfl
        exact hk hs.symm
      · rintro ⟨s, hs, hused⟩
        refine ⟨?_, s, hs, ((hmem s).mp hused).2⟩
        rintro rfl
        exact hr (hrest.mpr ⟨s, hs, hused⟩)

/-- The search for a free section looks at a number of positions from one on. -/
theorem findFrom?_eq_some {total sec : ℕ} :
    ∀ {left i : ℕ}, f.findFrom? total left i = some sec →
      (∃ j, sec = j % total) ∧ f.usedSections.contains sec = false := by
  intro left
  induction left with
  | zero =>
    intro i h
    cases h
  | succ left ih =>
    intro i h
    unfold findFrom? at h
    split_ifs at h with hused
    · exact ih h
    · cases h
      exact ⟨⟨i, rfl⟩, Bool.eq_false_of_not_eq_true hused⟩

/-- A search that finds nothing has met sections in use only. -/
theorem findFrom?_eq_none {total : ℕ} :
    ∀ {left i : ℕ}, f.findFrom? total left i = none →
      ∀ j, i ≤ j → j < i + left → f.usedSections.contains (j % total) = true := by
  intro left
  induction left with
  | zero =>
    intro i _ j hj hlt
    omega
  | succ left ih =>
    intro i h j hj hlt
    unfold findFrom? at h
    split_ifs at h with hused
    rcases Nat.eq_or_lt_of_le hj with rfl | hj
    · exact hused
    · exact ih h j hj (by omega)

/-- A section that is found is a free one of the area. -/
theorem find?_eq_some (hg : g.Valid) {hint sec : ℕ} (h : f.find? g hint = some sec) :
    sec < g.sections ∧ f.usedSections.contains sec = false := by
  obtain ⟨⟨j, rfl⟩, hfree⟩ := findFrom?_eq_some h
  exact ⟨Nat.mod_lt _ (Geometry.sections_pos hg), hfree⟩

/-- If no section is found, every section of the area is in use. -/
theorem find?_eq_none (hg : g.Valid) {hint : ℕ} (h : f.find? g hint = none) :
    ∀ sec < g.sections, f.usedSections.contains sec = true := by
  intro sec hsec
  have hpos := Geometry.sections_pos hg
  -- The position from the hint on that goes round to the section.
  have hpos' :
      (hint + (sec + (g.sections - hint % g.sections)) % g.sections) % g.sections = sec := by
    rw [Nat.add_mod, Nat.mod_mod, ← Nat.add_mod, Nat.add_left_comm]
    have hlt := Nat.mod_lt hint hpos
    have hsum : hint + (g.sections - hint % g.sections) =
        g.sections * (hint / g.sections + 1) := by
      have := Nat.div_add_mod hint g.sections
      rw [Nat.mul_succ]
      omega
    rw [hsum, Nat.add_mul_mod_self_left, Nat.mod_eq_of_lt hsec]
  rw [← hpos']
  exact findFrom?_eq_none h _ (Nat.le_add_right _ _) (by
    have := Nat.mod_lt (sec + (g.sections - hint % g.sections)) hpos
    omega)

end Reclaim.FreeMap
