import Reclaim.Victim.Search
import Reclaim.Proofs.Area.Tallied
import Reclaim.Proofs.Area.Writing

/-!
# Victim searches keep an area sound

A search widens the age bounds, moves a cursor, and claims or stages a section; no record and no
list changes. The best candidate of a scan is a listed segment outside the sections that the search
passes over (`scan_spec`), whatever the cursor it started from: a candidate past the end of the area
has no record, so costing it traps. Hence a section that is staged or claimed has a live block and
no log writes into it (`Sound.findVictim`).

A search traps before it begins exactly if rounding its cursor up leaves the width of a cursor
(`CursorOverflows`); otherwise its policy is the plain one (`checkedPolicy_eq_ok`).
-/

namespace Reclaim

/-- The start of the unit behind a cursor, counted in units. -/
theorem roundUp_eq (unit cursor : ℕ) : roundUp unit cursor = (cursor / unit + 1) * unit := by
  have hdiv := Nat.div_add_mod cursor unit
  unfold roundUp
  rw [Nat.add_mul, Nat.one_mul, Nat.mul_comm (cursor / unit)]
  omega

/-- No unit of an area ends past its end. -/
theorem roundUp_le {unit segments cursor : ℕ} (hdvd : unit ∣ segments)
    (hcursor : cursor < segments) : roundUp unit cursor ≤ segments := by
  obtain ⟨units, rfl⟩ := hdvd
  have hunit : 0 < unit := Nat.pos_of_mul_pos_right (Nat.zero_lt_of_lt hcursor)
  rw [roundUp_eq, Nat.mul_comm unit]
  refine Nat.mul_le_mul_right unit (Nat.succ_le_of_lt ?_)
  rwa [Nat.div_lt_iff_lt_mul hunit, Nat.mul_comm]

namespace SegmentTable

variable {t t' : SegmentTable} {g : Geometry} {seg : ℕ}

/-! ## Costs -/

/-- A list of segments whose live blocks were added up has a record for each. -/
theorem lt_of_liveIn : ∀ {segs : List ℕ} {n : ℕ}, t.liveIn segs = .ok n →
    ∀ s ∈ segs, s < t.records.size
  | [], _, _, s, hs => absurd hs List.not_mem_nil
  | k :: segs, n, h, s, hs => by
    unfold liveIn at h
    obtain ⟨r, hget, h⟩ := Guarded.bind_eq_ok.mp h
    obtain ⟨rest, hrest, -⟩ := Guarded.bind_eq_ok.mp h
    rcases List.mem_cons.mp hs with rfl | hs
    · exact (get_eq_ok.mp hget).1
    · exact lt_of_liveIn hrest s hs

/-- A list of segments whose ages were added up has a record for each. -/
theorem lt_of_ageSum : ∀ {segs : List ℕ} {n : ℕ}, t.ageSum segs = .ok n →
    ∀ s ∈ segs, s < t.records.size
  | [], _, _, s, hs => absurd hs List.not_mem_nil
  | k :: segs, n, h, s, hs => by
    unfold ageSum at h
    obtain ⟨r, hget, h⟩ := Guarded.bind_eq_ok.mp h
    obtain ⟨rest, hrest, -⟩ := Guarded.bind_eq_ok.mp h
    rcases List.mem_cons.mp hs with rfl | hs
    · exact (get_eq_ok.mp hget).1
    · exact lt_of_ageSum hrest s hs

/-- A segment lies among the segments of its section. -/
theorem mem_own_section (hg : g.Valid) (seg : ℕ) : seg ∈ g.sectionSegments (g.sectionOf seg) :=
  (Geometry.mem_sectionSegments hg).mpr rfl

/-- A segment whose section was added up has a record. -/
theorem lt_of_sectionLive (hg : g.Valid) {n : ℕ} (h : t.sectionLive g seg = .ok n) :
    seg < t.records.size := by
  unfold sectionLive at h
  split_ifs at h
  · obtain ⟨r, hget, -⟩ := Guarded.bind_eq_ok.mp h
    exact (get_eq_ok.mp hget).1
  · exact lt_of_liveIn h seg (mem_own_section hg seg)

/-- A segment that was costed has a record, and costing it changes the age bounds alone. -/
theorem cost_spec (hg : g.Valid) {p : Policy} {c : ℕ} (h : t.cost g seg p = .ok (c, t')) :
    seg < t.records.size ∧ t'.records = t.records ∧ t'.live = t.live := by
  unfold cost at h
  split at h
  · obtain ⟨r, hget, h⟩ := Guarded.bind_eq_ok.mp h
    cases h
    exact ⟨(get_eq_ok.mp hget).1, rfl, rfl⟩
  · obtain ⟨live, hlive, h⟩ := Guarded.bind_eq_ok.mp h
    cases h
    unfold liveBlocks at hlive
    split_ifs at hlive
    · exact ⟨lt_of_sectionLive hg hlive, rfl, rfl⟩
    · obtain ⟨r, hget, -⟩ := Guarded.bind_eq_ok.mp hlive
      exact ⟨(get_eq_ok.mp hget).1, rfl, rfl⟩
  · unfold costBenefit at h
    obtain ⟨age, -, h⟩ := Guarded.bind_eq_ok.mp h
    obtain ⟨live, hlive, h⟩ := Guarded.bind_eq_ok.mp h
    obtain ⟨scaled, -, h⟩ := Guarded.bind_eq_ok.mp h
    obtain ⟨spare, -, h⟩ := Guarded.bind_eq_ok.mp h
    obtain ⟨benefit, -, h⟩ := Guarded.bind_eq_ok.mp h
    cases h
    exact ⟨lt_of_sectionLive hg hlive, rfl, rfl⟩

end SegmentTable

namespace Area

variable {a a' : Area} {seg : ℕ}

/-! ## Policies -/

/-- A search whose cursor cannot be rounded up: it lies inside a unit, and the start of the unit
behind it does not fit 32 bits. -/
structure CursorOverflows (a : Area) (trigger : Trigger) (log : Option Log) (reuse : Reuse) :
    Prop where
  /-- The cursor is not at the start of a unit. -/
  unaligned : a.cursors.get (a.policy trigger log reuse).ranking %
    (a.policy trigger log reuse).unit ≠ 0
  /-- The start of the unit behind it is too large. -/
  wide : 2 ^ 32 ≤ roundUp (a.policy trigger log reuse).unit
    (a.cursors.get (a.policy trigger log reuse).ranking)

section

variable {trigger : Trigger} {log : Option Log} {reuse : Reuse} {p : Policy}

/-- A search whose cursor cannot be rounded up has no policy. -/
theorem checkedPolicy_of_overflows (h : a.CursorOverflows trigger log reuse) :
    a.checkedPolicy trigger log reuse = .error .width := by
  unfold checkedPolicy
  dsimp only
  rw [if_neg h.unaligned, Guarded.fit32_eq_error h.wide, Guarded.error_bind]

/-- Every other search has one. -/
theorem checkedPolicy_eq (h : ¬a.CursorOverflows trigger log reuse) :
    a.checkedPolicy trigger log reuse = .ok (a.policy trigger log reuse) := by
  unfold checkedPolicy
  dsimp only
  split_ifs with haligned
  · rfl
  · rw [Guarded.fit32_eq (Nat.lt_of_not_le fun hwide => h ⟨haligned, hwide⟩), Guarded.ok_bind]
    rfl

/-- The policy of a search that has one is the plain one. -/
theorem checkedPolicy_eq_ok : a.checkedPolicy trigger log reuse = .ok p ↔
    ¬a.CursorOverflows trigger log reuse ∧ a.policy trigger log reuse = p := by
  by_cases h : a.CursorOverflows trigger log reuse
  · simp [checkedPolicy_of_overflows h, h]
  · simp [checkedPolicy_eq h, h]

/-- A cursor in the area can be rounded up. -/
theorem not_cursorOverflows (hword : a.geometry.segments < 2 ^ 32)
    (hdvd : (a.policy trigger log reuse).unit ∣ a.geometry.segments)
    (hcursor : a.cursors.get (a.policy trigger log reuse).ranking < a.geometry.segments) :
    ¬a.CursorOverflows trigger log reuse :=
  fun h => absurd h.wide (Nat.not_le_of_lt ((roundUp_le hdvd hcursor).trans_lt hword))

end

/-! ## Scanning -/

/-- The segments a search may choose: listed ones outside the sections that it passes over. -/
structure Candidate (a : Area) (p : Policy) (trigger : Trigger) (seg : ℕ) : Prop where
  /-- The segment is on the list that is scanned. -/
  listed : a.dirty.contains p.scanned seg = true
  /-- Its section is not passed over. -/
  eligible : a.isPassedOver trigger (a.geometry.sectionOf seg) = false

/-- What a scan has found is a candidate or was there before, and its table has the records it began
with. -/
structure Scanned (a : Area) (p : Policy) (trigger : Trigger) (f f' : Found) : Prop where
  /-- The records are the same. -/
  records : f'.table.records = f.table.records
  /-- The number of live blocks is the same. -/
  live : f'.table.live = f.table.live
  /-- The best candidate is one, unless it was there before. -/
  best : ∀ seg, f'.best = some seg → f.best = some seg ∨ a.Candidate p trigger seg

/-- A step of a sweep that stays inside the area gives a segment of the map. -/
theorem next?_contains {map : Bitmap} (hmap : map.WellFormed) {unit resume : ℕ} {s s' : Sweep}
    (h : s.next? map unit resume = some (seg, s')) (hseg : seg < map.size) :
    map.contains seg = true := by
  have hfound : ∀ start stop, map.next start stop = seg → seg < stop → map.contains seg = true := by
    rintro start stop rfl hlt
    exact ((Bitmap.next_spec hmap start stop).found (Nat.lt_min.mpr ⟨hlt, hseg⟩)).2
  unfold Sweep.next? at h
  dsimp only at h
  split_ifs at h with hstop hwrap hresume
  · cases h
    exact hfound _ _ rfl hstop
  · cases h
    exact hfound _ _ rfl hresume

/-- Weighing a segment of the list makes it the best candidate only if it is one. -/
theorem weigh_spec (ha : a.Tallied) {p : Policy} {trigger : Trigger} {f f' : Found}
    (hrecords : f.table.records = a.table.records)
    (hlisted : seg < a.geometry.segments → a.dirty.contains p.scanned seg = true)
    (h : a.weigh p trigger seg f = .ok f') : a.Scanned p trigger f f' := by
  unfold weigh at h
  split_ifs at h with hpassed
  · cases h
    exact ⟨rfl, rfl, fun _ hbest => Or.inl hbest⟩
  · obtain ⟨⟨c, table⟩, hcost, h⟩ := Guarded.bind_eq_ok.mp h
    obtain ⟨hlt, hsame, hlive⟩ := SegmentTable.cost_spec ha.geometry hcost
    dsimp only at h
    split_ifs at h with hcheaper
    · cases h
      refine ⟨hsame, hlive, ?_⟩
      rintro s hs
      cases hs
      -- A segment that has been costed has a record, so it is one of the list.
      rw [hrecords, ha.table.size] at hlt
      exact Or.inr ⟨hlisted hlt, Bool.eq_false_of_not_eq_true hpassed⟩
    · cases h
      exact ⟨hsame, hlive, fun _ hbest => Or.inl hbest⟩

/-- A scan finds candidates only. -/
theorem scan_spec (ha : a.Tallied) {p : Policy} {trigger : Trigger} :
    ∀ {left : ℕ} {sweep : Sweep} {f f' : Found}, f.table.records = a.table.records →
      a.scan p trigger left sweep f = .ok f' → a.Scanned p trigger f f'
  | left, sweep, f, f', hrecords, h => by
    have hroster := ha.dirty.roster p.scanned
    unfold scan at h
    split at h
    · cases h
      exact ⟨rfl, rfl, fun _ hbest => Or.inl hbest⟩
    · next seg sweep' hnext =>
      obtain ⟨f₁, hweigh, h⟩ := Guarded.bind_eq_ok.mp h
      have hfirst := weigh_spec ha hrecords
        (fun hlt => next?_contains hroster.map hnext (by rw [hroster.size]; exact hlt)) hweigh
      match left, h with
      | 0, h =>
        cases h
        exact ⟨hfirst.records, hfirst.live, hfirst.best⟩
      | left + 1, h =>
        have hrest := scan_spec ha (hfirst.records.trans hrecords) h
        refine ⟨hrest.records.trans hfirst.records, hrest.live.trans hfirst.live, ?_⟩
        intro s hs
        rcases hrest.best s hs with hs | hs
        · exact hfirst.best s hs
        · exact Or.inr hs

/-! ## Claiming -/

/-- A section that may be collected: it has a live block, no log writes into it, and it is not under
collection already. -/
structure Victim (a : Area) (sec : ℕ) : Prop where
  /-- The section has a live block. -/
  live : a.table.sectionTotal a.geometry sec ≠ 0
  /-- No log writes into the section. -/
  closed : a.isOpenSection sec = false
  /-- The section is not under collection. -/
  unclaimed : a.claimed ≠ some sec

/-- What a search changes: ages, cursors and claims. Only sections that may be collected are
staged. -/
structure Searched (a a' : Area) : Prop where
  /-- The geometry is the same. -/
  geometry : a'.geometry = a.geometry
  /-- The free maps are the same. -/
  free : a'.free = a.free
  /-- The logs stand where they stood. -/
  heads : a'.heads = a.heads
  /-- The records are the same. -/
  records : a'.table.records = a.table.records
  /-- The number of live blocks is the same. -/
  live : a'.table.live = a.table.live
  /-- The lists are well formed. -/
  dirty : a'.dirty.WellFormed a.geometry.segments a.geometry.sections
  /-- The lists have the same members. -/
  lists : ∀ c s, a'.dirty.contains c s = a.dirty.contains c s
  /-- A section that is staged was so before, or may be collected. -/
  staged : ∀ sec, a'.dirty.staged.contains sec = true →
    a.dirty.staged.contains sec = true ∨ a.Victim sec

/-- The records of the segments are the same after a search. -/
theorem Searched.record (h : a.Searched a') : a'.table.record = a.table.record :=
  SegmentTable.record_of_records h.records

/-- A search keeps an area sound. -/
theorem Searched.sound (h : a.Searched a') (ha : a.Sound) : a'.Sound := by
  have hrecord := h.record
  refine ha.of_records h.geometry h.free h.heads
    (SegmentTable.wellFormed_of_records ha.table h.records h.live) ?_ ?_ ?_ h.dirty h.lists ?_
  · exact fun s => by rw [hrecord]
  · exact fun s => by rw [hrecord]
  · exact fun s => by rw [hrecord]
  · intro sec hsec
    rcases h.staged sec hsec with hwas | hvictim
    · exact Or.inl hwas
    · exact Or.inr ⟨hvictim.live, hvictim.closed⟩

/-- A search keeps every block live or dead, and spent or not. -/
theorem Searched.quiet (h : a.Searched a') : a.Quiet a' :=
  ⟨h.geometry, h.free, h.heads, fun s => by rw [h.record]⟩

/-- A search frees no segment and files none under another log. -/
theorem Searched.evolves (h : a.Searched a') : a.Evolves a' where
  geometry := h.geometry
  spent _ := h.quiet.spent_iff.mpr
  settled sec := by
    unfold Settled isOpenSection
    rw [h.free, h.heads, h.geometry]
    exact id
  shrinks _ _ _ _ := h.quiet.liveAt_iff.mp
  log _ _ := by rw [h.record]

/-- Setting ages, cursors and claims changes what a search may change. -/
theorem Sound.searched_of_records (ha : a.Sound) {table : SegmentTable}
    (hrecords : table.records = a.table.records) (hlive : table.live = a.table.live)
    (cursors : Cursors) (claimed : Option ℕ) : a.Searched { a with table, cursors, claimed } :=
  ⟨rfl, rfl, rfl, hrecords, hlive, ha.dirty, fun _ _ => rfl, fun _ => Or.inl⟩

/-- A section that is not busy has no log writing into it and is not under collection. -/
theorem isBusySection_eq_false_iff {sec : ℕ} :
    a.isBusySection sec = false ↔ a.isOpenSection sec = false ∧ a.claimed ≠ some sec := by
  unfold isBusySection
  rw [Bool.or_eq_false_iff, decide_eq_false_iff_not]

/-- The section of a candidate may be collected, unless prefree segments are scanned. -/
theorem Candidate.victim (ha : a.Sound) {p : Policy} {trigger : Trigger}
    (hp : p.scanned ≠ .prefree) (h : a.Candidate p trigger seg) :
    a.Victim (a.geometry.sectionOf seg) := by
  have hbusy : a.isBusySection (a.geometry.sectionOf seg) = false := by
    have heligible := h.eligible
    unfold isPassedOver at heligible
    exact (Bool.or_eq_false_iff.mp heligible).1
  obtain ⟨hclosed, hunclaimed⟩ := isBusySection_eq_false_iff.mp hbusy
  refine ⟨?_, hclosed, hunclaimed⟩
  -- Segments on a list of dirty ones hold a live block, and so does their section.
  have hlive : (a.table.record seg).live ≠ 0 := by
    have hfiled := ((ha.classified seg _).mp h.listed).2.2
    cases hscanned : p.scanned with
    | prefree => exact absurd hscanned hp
    | dirty =>
      rw [hscanned] at hfiled
      exact Nat.ne_of_gt hfiled.1
    | ofLog log =>
      rw [hscanned] at hfiled
      exact Nat.ne_of_gt hfiled.1
  intro htotal
  exact hlive ((SegmentTable.sectionTotal_eq_zero_iff ha.geometry).mp htotal seg rfl)

/-- A search goes on after a step that claims nothing. -/
theorem Searched.trans {a₁ : Area} (h : a.Searched a₁) (hclaimed : a₁.claimed = a.claimed)
    (h' : a₁.Searched a') : a.Searched a' where
  geometry := h'.geometry.trans h.geometry
  free := h'.free.trans h.free
  heads := h'.heads.trans h.heads
  records := h'.records.trans h.records
  live := h'.live.trans h.live
  dirty := by
    rw [← h.geometry]
    exact h'.dirty
  lists c s := (h'.lists c s).trans (h.lists c s)
  staged sec hsec := by
    rcases h'.staged sec hsec with hwas | ⟨hlive, hclosed, hunclaimed⟩
    · exact h.staged sec hwas
    · refine Or.inr ⟨?_, ?_, by rw [← hclaimed]; exact hunclaimed⟩
      · unfold SegmentTable.sectionTotal at hlive
        rw [h.geometry, h.record] at hlive
        exact hlive
      · unfold isOpenSection at hclosed
        rw [h.heads, h.geometry] at hclosed
        exact hclosed

/-- A section that may be collected is one of the area: past its end no section has a live block. -/
theorem Victim.lt_sections (ha : a.Sound) {sec : ℕ} (h : a.Victim sec) :
    sec < a.geometry.sections := by
  by_contra hlarge
  refine h.live ((SegmentTable.sectionTotal_eq_zero_iff ha.geometry).mpr ?_)
  intro s hs
  have hge : a.geometry.segments ≤ s := by
    by_contra hlt
    exact hlarge (hs ▸ Geometry.sectionOf_lt ha.geometry (Nat.lt_of_not_le hlt))
  rw [SegmentTable.record_of_le ha.table hge]
  rfl

/-- Claiming a section that may be collected marks it, and answers with the start of its unit. -/
theorem claim_spec (ha : a.Sound) {p : Policy} {trigger : Trigger} {r : Outcome ℕ}
    (hvictim : p.reuse = .wholeSection → a.Victim (a.geometry.sectionOf seg))
    (h : a.claim p trigger seg = .ok (r, a')) :
    a.Searched a' ∧ r = .ok (seg - seg % p.unit) ∧
      (p.reuse = .wholeSection → trigger = .foreground →
        a'.claimed = some (a.geometry.sectionOf seg)) := by
  unfold claim at h
  dsimp only at h
  split at h
  · next hreuse =>
    cases h
    refine ⟨ha.searched_of_records rfl rfl _ _, rfl, ?_⟩
    intro hwhole
    rw [hreuse] at hwhole
    cases hwhole
  · cases h
    exact ⟨ha.searched_of_records rfl rfl _ _, rfl, fun _ _ => rfl⟩
  · next hreuse =>
    have hvictim := hvictim hreuse
    have hsec := hvictim.lt_sections ha
    obtain ⟨dirty, hstage, hdirty, hlists, hstaged⟩ := DirtyLists.stage_spec ha.dirty hsec
    rw [hstage, Guarded.ok_bind] at h
    cases h
    refine ⟨⟨rfl, rfl, rfl, rfl, rfl, hdirty, hlists, ?_⟩, rfl, ?_⟩
    · intro k hk
      have hk : dirty.staged.contains k = true := hk
      rw [hstaged, Bool.or_eq_true, decide_eq_true_iff] at hk
      rcases hk with rfl | hk
      · exact Or.inr hvictim
      · exact Or.inl hk
    · intro _ hforeground
      cases hforeground

/-- A section that a search answers with may be collected, and is under collection afterwards if the
search was for the foreground. -/
structure Chosen (a : Area) (trigger : Trigger) (start : ℕ) (a' : Area) : Prop where
  /-- The answer is the first segment of a section that may be collected. -/
  victim : a.Victim (a.geometry.sectionOf start)
  /-- The answer is aligned to the section. -/
  aligned : start = a.geometry.firstSegment (a.geometry.sectionOf start)
  /-- A foreground search claims the section. -/
  claimed : trigger = .foreground → a'.claimed = some (a.geometry.sectionOf start)

/-- The section of a victim that has been claimed is chosen. -/
theorem Victim.chosen (hg : a.geometry.Valid) {trigger : Trigger}
    (hvictim : a.Victim (a.geometry.sectionOf seg))
    (hclaimed : trigger = .foreground → a'.claimed = some (a.geometry.sectionOf seg)) :
    a.Chosen trigger (seg - seg % a.geometry.segmentsPerSection) a' := by
  rw [Geometry.sub_mod_eq_firstSegment]
  have hsec := Geometry.sectionOf_firstSegment hg (a.geometry.sectionOf seg)
  constructor
  · rw [hsec]
    exact hvictim
  · rw [hsec]
  · rw [hsec]
    exact hclaimed

/-- A scan of the list changes what a search may change, and chooses a section that may be
collected. -/
theorem Sound.searchVictim (ha : a.Sound) {p : Policy} {trigger : Trigger} {r : Outcome ℕ}
    (hscanned : p.scanned ≠ .prefree)
    (hunit : p.reuse = .wholeSection → p.unit = a.geometry.segmentsPerSection)
    (h : a.searchVictim p trigger = .ok (r, a')) :
    a.Searched a' ∧
      ∀ start, r = .ok start → p.reuse = .wholeSection → a.Chosen trigger start a' := by
  unfold Area.searchVictim at h
  obtain ⟨maxCost, -, h⟩ := Guarded.bind_eq_ok.mp h
  obtain ⟨f, hscan, h⟩ := Guarded.bind_eq_ok.mp h
  have hfound := scan_spec ha.tallied rfl hscan
  generalize hcursors : a.cursors.set p.ranking f.cursor = cursors at h
  have hsearched : a.Searched { a with table := f.table, cursors } :=
    ha.searched_of_records hfound.records hfound.live cursors a.claimed
  dsimp only at h
  split at h
  · cases h
    refine ⟨hsearched, ?_⟩
    intro start hstart
    cases hstart
  · next seg hbest =>
    rcases hfound.best seg hbest with hnone | hcandidate
    · cases hnone
    have hvictim := hcandidate.victim ha hscanned
    -- What makes a section a victim is the same after the scan.
    have hvictim' : ({ a with table := f.table, cursors } : Area).Victim
        (a.geometry.sectionOf seg) := by
      refine ⟨?_, hvictim.closed, hvictim.unclaimed⟩
      have hlive := hvictim.live
      unfold SegmentTable.sectionTotal at hlive ⊢
      rw [hsearched.record]
      exact hlive
    obtain ⟨hclaimed, rfl, hforeground⟩ := claim_spec (hsearched.sound ha) (fun _ => hvictim') h
    refine ⟨hsearched.trans rfl hclaimed, ?_⟩
    intro start hstart hwhole
    cases hstart
    rw [hunit hwhole]
    exact hvictim.chosen ha.geometry (hforeground hwhole)

/-- A staged section that is not busy may be collected, and taking it over changes what a search may
change. -/
theorem Sound.unstage (ha : a.Sound) {sec : ℕ} (hstaged : a.dirty.staged.contains sec = true)
    (hidle : a.isBusySection sec = false) :
    a.Victim sec ∧
      ∃ dirty, a.dirty.unstage sec = .ok (true, dirty) ∧ a.Searched { a with dirty } := by
  obtain ⟨hclosed, hunclaimed⟩ := isBusySection_eq_false_iff.mp hidle
  have hsec : sec < a.geometry.sections := by
    rw [← ha.dirty.staged_size]
    exact Bitmap.lt_size_of_contains hstaged
  obtain ⟨dirty, hunstage, hdirty, hlists, hkept⟩ := DirtyLists.unstage_spec ha.dirty hsec
  rw [hstaged] at hunstage
  refine ⟨⟨ha.staged_live sec hstaged, hclosed, hunclaimed⟩, dirty, hunstage,
    ⟨rfl, rfl, rfl, rfl, rfl, hdirty, hlists, fun k hk => ?_⟩⟩
  have hk : dirty.staged.contains k = true := hk
  rw [hkept, Bool.and_eq_true] at hk
  exact Or.inl hk.2

/-- A victim search keeps an area sound, changes no record, list or write position, and chooses a
section that may be collected, whatever the trigger, the log, the kind of reuse and the cursors. -/
theorem Sound.findVictim (ha : a.Sound) {trigger : Trigger} {log : Option Log} {reuse : Reuse}
    {r : Outcome ℕ} (h : a.findVictim trigger log reuse = .ok (r, a')) :
    a.Searched a' ∧
      ∀ start, r = .ok start → reuse = .wholeSection → a.Chosen trigger start a' := by
  have hreuse : (a.policy trigger log reuse).reuse = reuse := rfl
  have hunit : (a.policy trigger log reuse).reuse = .wholeSection →
      (a.policy trigger log reuse).unit = a.geometry.segmentsPerSection := by
    rw [hreuse]
    rintro rfl
    rfl
  have hscanned : (a.policy trigger log reuse).scanned ≠ .prefree := by
    cases reuse <;> cases log <;> simp [Area.policy, Policy.start, DirtyClass.ofLog?]
  rw [Area.findVictim, Guarded.bind_eq_ok] at h
  obtain ⟨p, hpolicy, h⟩ := h
  rw [(checkedPolicy_eq_ok.mp hpolicy).2] at hreuse hunit hscanned
  split_ifs at h with hbudget
  · cases h
    exact ⟨ha.searched_of_records rfl rfl _ _, fun start hstart => by cases hstart⟩
  · split at h
    · next sec hfind =>
      -- A staged section is taken over.
      have hstaged : a.dirty.staged.contains sec = true :=
        (Bitmap.mem_toList ha.dirty.staged sec).mp (List.mem_of_find?_eq_some hfind)
      have hidle := List.find?_some hfind
      rw [Bool.not_eq_true'] at hidle
      obtain ⟨hvictim, dirty, hunstage, hsearched⟩ := ha.unstage hstaged hidle
      rw [hunstage, Guarded.ok_bind] at h
      have hsecOf := Geometry.sectionOf_firstSegment ha.geometry sec
      rw [← hsecOf] at hvictim
      have hvictim' : ({ a with dirty } : Area).Victim
          (a.geometry.sectionOf (a.geometry.firstSegment sec)) :=
        ⟨hvictim.live, hvictim.closed, hvictim.unclaimed⟩
      obtain ⟨hclaimed, rfl, hforeground⟩ := claim_spec (hsearched.sound ha) (fun _ => hvictim') h
      refine ⟨hsearched.trans rfl hclaimed, ?_⟩
      intro start hstart hwhole
      cases hstart
      rw [hunit (hreuse.trans hwhole)]
      exact hvictim.chosen ha.geometry (hforeground (hreuse.trans hwhole))
    · obtain ⟨hsearched, hchosen⟩ := ha.searchVictim hscanned hunit h
      exact ⟨hsearched, fun start hstart hwhole => hchosen start hstart (hreuse.trans hwhole)⟩

end Area

end Reclaim
