import Reclaim.Area.Classify
import Reclaim.Proofs.Area.Sound

/-!
# Classifying restores soundness

When the live count or the log of a segment has changed, the area is sound but for the lists that
the segment is on and the staging of its section (`SoundExceptAt`). Classifying the segment mends
just that (`SoundExceptAt.classify`), so dropping a block (`Sound.invalidate`) and filing a segment
under another log (`Sound.setLog`) take a sound area to a sound one. The lists themselves are put
right by `enter` and `strike`, in one of three ways (`Refiled`).
-/

namespace Reclaim

namespace DirtyLists

/-! ## Refiling on the lists -/

/-- Lists that differ in the entries of one segment, which is now filed by its record, and in that
an emptied section is no longer staged unless the segment is dirty. -/
structure Refiled (d d' : DirtyLists) (seg : ℕ) (s : Segment) (blocks : ℕ)
    (emptied : Option ℕ) : Prop where
  /-- Other segments stay where they are. -/
  others : ∀ c k, k ≠ seg → d'.contains c k = d.contains c k
  /-- The segment is on the lists that its record calls for. -/
  filed : ∀ c, d'.contains c seg = true ↔ s.FiledUnder blocks c
  /-- Staged sections stay staged, but for one that has emptied. -/
  staged : ∀ sec, d'.staged.contains sec = true ↔
    d.staged.contains sec = true ∧ (emptied = some sec → 0 < s.live ∧ s.live < blocks)

variable {d : DirtyLists} {segments sections seg blocks : ℕ} {s : Segment} {emptied : Option ℕ}

/-- An empty segment becomes prefree. -/
theorem refiled_empty (hd : d.WellFormed segments sections) (hseg : seg < segments)
    (hemptied : ∀ sec, emptied = some sec → sec < sections)
    (hfiled : ∀ log, d.contains (.ofLog log) seg = true → s.log = some log) (hlive : s.live = 0) :
    ∃ d₁ d', d.enter seg .prefree s.log = .ok d₁ ∧ d₁.strike seg .dirty s.log emptied = .ok d' ∧
      d'.WellFormed segments sections ∧ d.Refiled d' seg s blocks emptied := by
  obtain ⟨d₁, henter, hd₁, hstaged, hmem⟩ := enter_spec hd .prefree s.log hseg
  obtain ⟨d', hstrike, hd', hmem', hstaged'⟩ := strike_dirty_spec hd₁ s.log hseg hemptied
  refine ⟨d₁, d', henter, hstrike, hd', ⟨?_, ?_, ?_⟩⟩
  · intro c k hk
    rw [Bool.eq_iff_iff, hmem', hmem]
    simp [hk]
  · intro c
    rw [hmem', hmem]
    cases c with
    -- The strike takes the segment off the list of its log, the only such list that it can be on.
    | ofLog log =>
      rw [DirtyClass.prefree_concerns, DirtyClass.dirty_concerns]
      constructor
      · rintro ⟨⟨-, h⟩ | h, hkept⟩
        · cases h
        · exact absurd ⟨rfl, Or.inr ⟨log, hfiled log h, rfl⟩⟩ hkept
      · rintro ⟨hpos, -⟩
        omega
    | dirty => simp [Segment.FiledUnder, hlive]
    | prefree => simp [Segment.FiledUnder, hlive]
  · -- An empty segment does not keep its section staged.
    intro sec
    rw [hstaged', hstaged, hlive]
    simp

/-- A partly live segment becomes dirty. -/
theorem refiled_partial (hd : d.WellFormed segments sections) (hseg : seg < segments)
    (hprefree : d.contains .prefree seg = true → s.live = 0)
    (hfiled : ∀ log, d.contains (.ofLog log) seg = true → s.log = some log)
    (hpos : s.live ≠ 0) (hlt : s.live < blocks) :
    ∃ d', d.enter seg .dirty s.log = .ok d' ∧ d'.WellFormed segments sections ∧
      d.Refiled d' seg s blocks emptied := by
  obtain ⟨d', henter, hd', hstaged, hmem⟩ := enter_spec hd .dirty s.log hseg
  have hpos := Nat.pos_of_ne_zero hpos
  refine ⟨d', henter, hd', ⟨?_, ?_, ?_⟩⟩
  · intro c k hk
    rw [Bool.eq_iff_iff, hmem]
    simp [hk]
  · intro c
    rw [hmem]
    cases c with
    | ofLog log =>
      rw [DirtyClass.dirty_concerns]
      constructor
      · rintro (⟨-, h | ⟨l, hl, h⟩⟩ | h)
        · cases h
        · cases h
          exact ⟨hpos, hlt, hl⟩
        · exact ⟨hpos, hlt, hfiled log h⟩
      · rintro ⟨-, -, hlog⟩
        exact Or.inl ⟨rfl, Or.inr ⟨log, hlog, rfl⟩⟩
    | dirty => simp [Segment.FiledUnder, hpos, hlt]
    | prefree =>
      simp only [DirtyClass.dirty_concerns, Segment.FiledUnder]
      constructor
      · rintro (⟨-, h | ⟨_, -, h⟩⟩ | h)
        · cases h
        · cases h
        · exact hprefree h
      · intro h
        omega
  · intro sec
    rw [hstaged]
    simp [hpos, hlt]

/-- A full segment is on no list. -/
theorem refiled_full (hd : d.WellFormed segments sections) (hseg : seg < segments)
    (hemptied : ∀ sec, emptied = some sec → sec < sections)
    (hprefree : d.contains .prefree seg = true → s.live = 0)
    (hfiled : ∀ log, d.contains (.ofLog log) seg = true → s.log = some log)
    (hpos : s.live ≠ 0) (hfull : ¬s.live < blocks) :
    ∃ d', d.strike seg .dirty s.log emptied = .ok d' ∧ d'.WellFormed segments sections ∧
      d.Refiled d' seg s blocks emptied := by
  obtain ⟨d', hstrike, hd', hmem, hstaged⟩ := strike_dirty_spec hd s.log hseg hemptied
  refine ⟨d', hstrike, hd', ⟨?_, ?_, ?_⟩⟩
  · intro c k hk
    rw [Bool.eq_iff_iff, hmem]
    simp [hk]
  · intro c
    rw [hmem]
    cases c with
    | ofLog log =>
      rw [DirtyClass.dirty_concerns]
      constructor
      · rintro ⟨h, hkept⟩
        exact absurd ⟨rfl, Or.inr ⟨log, hfiled log h, rfl⟩⟩ hkept
      · rintro ⟨-, hlt, -⟩
        exact absurd hlt hfull
    | dirty => simp [Segment.FiledUnder, hfull]
    | prefree =>
      simp only [DirtyClass.dirty_concerns, Segment.FiledUnder]
      constructor
      · rintro ⟨h, -⟩
        exact hprefree h
      · exact fun h => absurd h hpos
  · intro sec
    rw [hstaged]
    simp [hfull]

end DirtyLists

namespace Area

variable {a : Area} {seg : ℕ}

/-- An area that is sound but for the lists that a segment in use is on and the staging of its
section. The segment may be on the lists of its past, as long as striking it finds them. -/
structure SoundExceptAt (a : Area) (seg : ℕ) : Prop extends Books a where
  /-- Each log writes into a segment in use. -/
  heads : ∀ log, a.HeadSound log
  /-- No two logs write into one section. -/
  apart : ∀ log log', a.geometry.sectionOf (a.heads.get log).segment =
    a.geometry.sectionOf (a.heads.get log').segment → log = log'
  /-- Each other segment is on the lists that its record calls for. -/
  classified : ∀ s, s ≠ seg → a.Classified s
  /-- A staged section has a live block, or is that of the segment. -/
  staged_live : ∀ sec, a.dirty.staged.contains sec = true →
    sec = a.geometry.sectionOf seg ∨ a.table.sectionTotal a.geometry sec ≠ 0
  /-- No log writes into a staged section. -/
  staged_closed : ∀ sec, a.dirty.staged.contains sec = true → a.isOpenSection sec = false
  /-- The segment is in use. -/
  used : a.isUsed seg = true
  /-- An open segment is on no list. -/
  unlisted : a.isOpen seg = true → ∀ c, a.dirty.contains c seg = false
  /-- A segment that was prefree has no live block. -/
  prefree : a.dirty.contains .prefree seg = true → (a.table.record seg).live = 0
  /-- A segment on the list of a log is filed under that log. -/
  filed : ∀ log, a.dirty.contains (.ofLog log) seg = true → (a.table.record seg).log = some log

/-- Lists that classifying a segment may leave: other segments stay where they are, the segment is on
the lists that it belongs on, and no section is staged but such as were, if they are not empty. -/
structure Mended (a : Area) (seg : ℕ) (dirty : DirtyLists) : Prop where
  /-- The lists are well formed. -/
  wellFormed : dirty.WellFormed a.geometry.segments a.geometry.sections
  /-- Other segments stay where they are. -/
  others : ∀ c s, s ≠ seg → dirty.contains c s = a.dirty.contains c s
  /-- The segment is on the lists that its record calls for. -/
  filed : ({ a with dirty } : Area).Classified seg
  /-- No section becomes staged. -/
  staged : ∀ sec, dirty.staged.contains sec = true → a.dirty.staged.contains sec = true
  /-- If the section of the segment is staged, it holds a live block. -/
  staged_live : dirty.staged.contains (a.geometry.sectionOf seg) = true →
    a.table.sectionTotal a.geometry (a.geometry.sectionOf seg) ≠ 0

/-- An open segment is on no list, and its section is not staged. -/
theorem SoundExceptAt.mended_of_open (ha : a.SoundExceptAt seg) (hopen : a.isOpen seg = true) :
    a.Mended seg a.dirty := by
  refine ⟨ha.dirty, fun _ _ _ => rfl, fun c => ?_, fun _ h => h, fun hstaged => ?_⟩
  · show a.dirty.contains c seg = true ↔ a.isUsed seg = true ∧ a.isOpen seg = false ∧ _
    rw [ha.unlisted hopen c, hopen]
    simp
  · rw [isOpen_eq_false_of_section (ha.staged_closed _ hstaged)] at hopen
    cases hopen

/-- Refiling a closed segment by its record mends the lists, in whichever of the three ways it is
done. -/
theorem SoundExceptAt.mended_of_refiled (ha : a.SoundExceptAt seg) (hopen : a.isOpen seg = false)
    {dirty : DirtyLists} {emptied : Option ℕ}
    (hdirty : dirty.WellFormed a.geometry.segments a.geometry.sections)
    (hemptied : a.table.sectionTotal a.geometry (a.geometry.sectionOf seg) = 0 →
      emptied = some (a.geometry.sectionOf seg))
    (h : a.dirty.Refiled dirty seg (a.table.record seg) a.geometry.segmentBlocks emptied) :
    a.Mended seg dirty := by
  refine ⟨hdirty, h.others, fun c => ?_, fun sec hsec => ((h.staged sec).mp hsec).1,
    fun hstaged htotal => ?_⟩
  · show dirty.contains c seg = true ↔ a.isUsed seg = true ∧ a.isOpen seg = false ∧
      (a.table.record seg).FiledUnder a.geometry.segmentBlocks c
    rw [h.filed, hopen, ha.used]
    simp
  · -- The section has emptied, so it stays staged only if the segment is dirty, which it is not.
    have hlive := (SegmentTable.sectionTotal_eq_zero_iff ha.geometry).mp htotal seg rfl
    have hpos := (((h.staged _).mp hstaged).2 (hemptied htotal)).1
    omega

/-- The section of a segment, if it holds no live block. -/
def emptied (a : Area) (seg : ℕ) : Option ℕ :=
  if a.table.sectionTotal a.geometry (a.geometry.sectionOf seg) = 0 then
    some (a.geometry.sectionOf seg)
  else
    none

/-- Classifying a closed segment refiles it by its record, and changes the dirty lists alone. -/
theorem Books.classify_closed (ha : a.Books) (hseg : seg < a.geometry.segments)
    (hopen : a.isOpen seg = false)
    (hprefree : a.dirty.contains .prefree seg = true → (a.table.record seg).live = 0)
    (hfiled : ∀ log, a.dirty.contains (.ofLog log) seg = true →
      (a.table.record seg).log = some log) :
    ∃ dirty, a.classify seg = .ok { a with dirty } ∧
      dirty.WellFormed a.geometry.segments a.geometry.sections ∧
      a.dirty.Refiled dirty seg (a.table.record seg) a.geometry.segmentBlocks (a.emptied seg) := by
  have hlt : ∀ sec, a.emptied seg = some sec → sec < a.geometry.sections := by
    unfold emptied
    intro sec hsec
    split_ifs at hsec
    cases hsec
    exact Geometry.sectionOf_lt ha.geometry hseg
  unfold classify
  -- Neither lookup traps, since the segment is one of the area.
  rw [hopen, if_neg Bool.false_ne_true, SegmentTable.get_eq (ha.lt_size hseg), Guarded.ok_bind,
    SegmentTable.sectionLive_eq ha.geometry ha.table.size hseg, Guarded.ok_bind]
  dsimp only
  have hemptied : (if a.table.sectionTotal a.geometry (a.geometry.sectionOf seg) = 0 then
      some (a.geometry.sectionOf seg) else none) = a.emptied seg := rfl
  rw [hemptied]
  -- The three classes of a closed segment.
  by_cases hzero : (a.table.record seg).live = 0
  · obtain ⟨d₁, d', henter, hstrike, hd', hre⟩ :=
      DirtyLists.refiled_empty ha.dirty hseg hlt hfiled hzero
    refine ⟨d', ?_, hd', hre⟩
    rw [if_pos hzero, henter, Guarded.ok_bind, hstrike]
    rfl
  · rw [if_neg hzero]
    by_cases hpartial : (a.table.record seg).live < a.geometry.segmentBlocks
    · obtain ⟨d', henter, hd', hre⟩ :=
        DirtyLists.refiled_partial ha.dirty hseg hprefree hfiled hzero hpartial
      refine ⟨d', ?_, hd', hre⟩
      rw [if_pos hpartial, henter]
      rfl
    · obtain ⟨d', hstrike, hd', hre⟩ :=
        DirtyLists.refiled_full ha.dirty hseg hlt hprefree hfiled hzero hpartial
      refine ⟨d', ?_, hd', hre⟩
      rw [if_neg hpartial, hstrike]
      rfl

/-- Classifying the segment changes the dirty lists alone, and mends them. -/
theorem SoundExceptAt.classify_spec (ha : a.SoundExceptAt seg) :
    ∃ dirty, a.classify seg = .ok { a with dirty } ∧ a.Mended seg dirty := by
  cases hopen : a.isOpen seg with
  | true => exact ⟨a.dirty, if_pos hopen, ha.mended_of_open hopen⟩
  | false =>
    obtain ⟨dirty, hclassify, hdirty, hre⟩ :=
      ha.classify_closed (ha.lt_of_used ha.used) hopen ha.prefree ha.filed
    exact ⟨dirty, hclassify, ha.mended_of_refiled hopen hdirty (fun h => if_pos h) hre⟩

/-- Classifying the segment makes the area sound, and stages no section. -/
theorem SoundExceptAt.classify (ha : a.SoundExceptAt seg) :
    ∃ dirty, a.classify seg = .ok { a with dirty } ∧ ({ a with dirty } : Area).Sound ∧
      ∀ sec, dirty.staged.contains sec = true → a.dirty.staged.contains sec = true := by
  obtain ⟨dirty, hclassify, hmended⟩ := ha.classify_spec
  refine ⟨dirty, hclassify, ⟨⟨ha.geometry, ha.table, hmended.wellFormed, ha.free, ha.unused_dead⟩,
    fun log => ⟨(ha.heads log).used, (ha.heads log).next_le, (ha.heads log).dead⟩, ha.apart,
    ?_, ?_, ?_⟩, hmended.staged⟩
  · intro s
    by_cases hs : s = seg
    · rw [hs]
      exact hmended.filed
    · intro c
      rw [show ({ a with dirty } : Area).dirty.contains c s = a.dirty.contains c s from
        hmended.others c s hs]
      exact ha.classified s hs c
  · intro sec hsec
    rcases ha.staged_live sec (hmended.staged sec hsec) with rfl | h
    · exact hmended.staged_live hsec
    · exact h
  · exact fun sec hsec => ha.staged_closed sec (hmended.staged sec hsec)

/-! ## Dropping blocks -/

variable {table : SegmentTable} {off : ℕ}

/-- Dropping a live block of a sound area leaves it sound except at the segment of the block. -/
theorem Sound.exceptAt_dropped (ha : a.Sound)
    (hdrop : a.table.Dropped a.geometry seg off table)
    (hwas : (a.table.record seg).isLive off = true) :
    ({ a with table } : Area).SoundExceptAt seg := by
  have hcounted := ha.live_ne_zero hwas
  refine ⟨⟨ha.geometry, hdrop.wellFormed, ha.dirty, ha.free, ?_⟩, ?_, ha.apart, ?_, ?_,
    ha.staged_closed, ha.used_of_isLive hwas, ha.contains_of_open, ?_, ?_⟩
  · intro s hs
    have hzero := ha.unused_dead s hs
    have hne : s ≠ seg := by
      rintro rfl
      exact hcounted hzero
    show (table.record s).live = 0
    rw [hdrop.others s hne, hzero]
  · exact fun log => ⟨(ha.heads log).used, (ha.heads log).next_le,
      fun off hnext => hdrop.dead ((ha.heads log).dead off hnext)⟩
  · intro s hs
    have hsame := hdrop.others s hs
    exact (ha.classified s).congr rfl (fun _ => rfl) rfl rfl (by rw [hsame]) (by rw [hsame])
  · -- Only the section of the segment may have emptied.
    intro sec hstaged
    refine or_iff_not_imp_left.mpr fun hsec => ?_
    have htotal : table.sectionTotal a.geometry sec = a.table.sectionTotal a.geometry sec := by
      refine SegmentTable.sectionTotal_congr ha.geometry fun s hs => ?_
      rw [hdrop.others s (by rintro rfl; exact hsec hs.symm)]
    show table.sectionTotal a.geometry sec ≠ 0
    rw [htotal]
    exact ha.staged_live sec hstaged
  · intro hpre
    exact absurd ((ha.classified seg _).mp hpre).2.2 hcounted
  · intro log hcontains
    show (table.record seg).log = some log
    rw [hdrop.log]
    exact ((ha.classified seg _).mp hcontains).2.2.2.2

/-- When the block at an address is dropped, no other block dies. -/
theorem liveAt_dropped (hg : a.geometry.Valid) {addr : Address}
    (haddr : a.geometry.segmentOf? addr = some seg)
    (hdrop : a.table.Dropped a.geometry seg (a.geometry.offsetOf addr) table) (x : Address) :
    ({ a with table } : Area).LiveAt x ↔ a.LiveAt x ∧ x ≠ addr := by
  constructor
  · rintro ⟨s, hs, hx⟩
    obtain ⟨hwas, hne⟩ := (hdrop.isLive_iff s _).mp hx
    refine ⟨⟨s, hs, hwas⟩, ?_⟩
    rintro rfl
    exact hne ⟨Option.some.inj (hs.symm.trans haddr), rfl⟩
  · rintro ⟨⟨s, hs, hx⟩, hne⟩
    refine ⟨s, hs, (hdrop.isLive_iff s _).mpr ⟨hx, ?_⟩⟩
    -- Two blocks of one segment at one offset are the same block.
    rintro ⟨rfl, hoff⟩
    exact hne (Geometry.eq_of_segmentOf? hg hs haddr hoff)

/-- Dropping the block at an address never traps. It leaves a sound area in which that block is dead
and every other one as before, and the segments keep their logs. -/
theorem Sound.invalidate (ha : a.Sound) (addr : Address) :
    ∃ r table dirty, a.invalidate addr = .ok (r, { a with table, dirty }) ∧
      ({ a with table, dirty } : Area).Sound ∧
      (∀ x, ({ a with table, dirty } : Area).LiveAt x ↔ a.LiveAt x ∧ x ≠ addr) ∧
      (∀ s, (table.record s).log = (a.table.record s).log) ∧
      ∀ sec, dirty.staged.contains sec = true → a.dirty.staged.contains sec = true := by
  -- An address of no segment names no live block.
  have hsame : a.geometry.segmentOf? addr = none → ∀ x, a.LiveAt x ↔ a.LiveAt x ∧ x ≠ addr := by
    intro hnone x
    refine ⟨fun hx => ⟨hx, ?_⟩, And.left⟩
    rintro rfl
    obtain ⟨s, hs, -⟩ := hx
    rw [hnone] at hs
    cases hs
  unfold Area.invalidate
  cases halloc : addr.isAllocated with
  | false =>
    refine ⟨_, a.table, a.dirty, rfl, ha, hsame ?_, fun _ => rfl, fun _ h => h⟩
    cases haddr : a.geometry.segmentOf? addr with
    | none => rfl
    | some seg =>
      rw [Geometry.isAllocated_of_segmentOf? haddr] at halloc
      cases halloc
  | true =>
    rw [if_pos rfl]
    cases haddr : a.geometry.segmentOf? addr with
    | none => exact ⟨_, a.table, a.dirty, rfl, ha, hsame haddr, fun _ => rfl, fun _ h => h⟩
    | some seg =>
      obtain ⟨hseg, hoff, -⟩ := Geometry.eq_block_of_segmentOf? ha.geometry haddr
      obtain ⟨table, hrun, hdrop⟩ := SegmentTable.drop_spec ha.table hseg hoff
      dsimp only
      rw [hrun, Guarded.ok_bind]
      dsimp only
      cases hwas : (a.table.record seg).isLive (a.geometry.offsetOf addr) with
      | false =>
        -- The block was dead already, so nothing is changed.
        refine ⟨_, a.table, a.dirty, rfl, ha, ?_, fun _ => rfl, fun _ h => h⟩
        intro x
        refine ⟨fun hx => ⟨hx, ?_⟩, And.left⟩
        rintro rfl
        obtain ⟨s, hs, hx⟩ := hx
        cases haddr.symm.trans hs
        rw [hwas] at hx
        cases hx
      | true =>
        obtain ⟨dirty, hclassify, hsound, hstaged⟩ := (ha.exceptAt_dropped hdrop hwas).classify
        refine ⟨.ok (), table, dirty, ?_, hsound, liveAt_dropped ha.geometry haddr hdrop,
          hdrop.log_eq, hstaged⟩
        rw [if_pos rfl, hclassify]
        rfl

/-! ## Filing under another log -/

/-- Lists that differ in that a segment is no longer on the dirty list and the list of its log. -/
structure Unfiled (a : Area) (seg : ℕ) (d : DirtyLists) : Prop where
  /-- The lists are well formed. -/
  wellFormed : d.WellFormed a.geometry.segments a.geometry.sections
  /-- The segment is struck from the lists that a dirty one is on. -/
  contains : ∀ c s, d.contains c s = true ↔ a.dirty.contains c s = true ∧
    ¬(s = seg ∧ DirtyClass.dirty.Concerns (a.table.record seg).log c)
  /-- The same sections are staged. -/
  staged : ∀ sec, d.staged.contains sec = true ↔ a.dirty.staged.contains sec = true

/-- The entries of a segment under its old log are struck if it is dirty, and otherwise there are
none. In both cases the lists go on to whatever is `next`. -/
theorem Sound.strike_unfiles (ha : a.Sound) (hseg : seg < a.geometry.segments) :
    ∃ d : DirtyLists, a.Unfiled seg d ∧ ∀ next : DirtyLists → Guarded Area,
      (if a.dirty.contains .dirty seg = true then do
        let d ← a.dirty.strike seg .dirty (a.table.record seg).log none
        next d
      else do
        let d ← pure a.dirty
        next d) = next d := by
  cases hdirty : a.dirty.contains .dirty seg with
  | true =>
    have hnone : ∀ sec, (none : Option ℕ) = some sec → sec < a.geometry.sections := nofun
    obtain ⟨d, hstrike, hd, hcontains, hstaged⟩ := DirtyLists.strike_dirty_spec ha.dirty
      (a.table.record seg).log hseg hnone
    refine ⟨d, ⟨hd, hcontains, by simpa using hstaged⟩, fun next => ?_⟩
    rw [if_pos rfl, hstrike, Guarded.ok_bind]
  | false =>
    refine ⟨a.dirty, ⟨ha.dirty, fun c s => ?_, fun _ => Iff.rfl⟩, fun _ => rfl⟩
    refine ⟨fun h => ⟨h, ?_⟩, And.left⟩
    -- A segment on the list of its log is dirty, so it is on the dirty list too.
    rintro ⟨rfl, hconcerns⟩
    rw [DirtyClass.dirty_concerns] at hconcerns
    rcases hconcerns with rfl | ⟨l, -, rfl⟩
    · rw [hdirty] at h
      cases h
    · obtain ⟨hu, ho, hpos, hlt, -⟩ := (ha.classified s _).mp h
      rw [(ha.classified s .dirty).mpr ⟨hu, ho, hpos, hlt⟩] at hdirty
      cases hdirty

/-- When the old entries of a segment in use are struck, filing it under another log leaves the area
sound except at the segment. -/
theorem Sound.exceptAt_relogged (ha : a.Sound) (hused : a.isUsed seg = true) {d : DirtyLists}
    (hd : a.Unfiled seg d) (log : Option Log) :
    ({ a with dirty := d, table := a.table.put seg { a.table.record seg with log } } :
      Area).SoundExceptAt seg := by
  obtain ⟨htable, hrecord⟩ := SegmentTable.replace_spec ha.table (ha.lt_of_used hused)
    (s := { a.table.record seg with log }) rfl rfl
  generalize a.table.put seg { a.table.record seg with log } = table at htable hrecord
  refine ⟨⟨ha.geometry, htable, hd.wellFormed, ha.free, ?_⟩, ?_, ha.apart, ?_, ?_, ?_, hused, ?_, ?_,
    ?_⟩
  · intro s hs
    show (table.record s).live = 0
    rw [(hrecord s).2.1]
    exact ha.unused_dead s hs
  · -- The maps are the same, so each log still stands before dead blocks.
    intro l
    refine ⟨(ha.heads l).used, (ha.heads l).next_le, ?_⟩
    intro off hoff
    show (table.record (a.heads.get l).segment).map.contains off = false
    rw [(hrecord _).1]
    exact (ha.heads l).dead off hoff
  · intro s hs
    refine (ha.classified s).congr rfl ?_ rfl rfl (hrecord s).2.1
      (by rw [(hrecord s).2.2, if_neg hs])
    intro c
    rw [Bool.eq_iff_iff, hd.contains]
    simp [hs]
  · intro sec hsec
    right
    show table.sectionTotal a.geometry sec ≠ 0
    rw [SegmentTable.sectionTotal_congr ha.geometry fun s _ => (hrecord s).2.1]
    exact ha.staged_live sec ((hd.staged sec).mp hsec)
  · exact fun sec hsec => ha.staged_closed sec ((hd.staged sec).mp hsec)
  · intro hopen c
    rw [← Bool.not_eq_true]
    intro h
    have h := ((hd.contains c seg).mp h).1
    rw [ha.contains_of_open hopen] at h
    cases h
  · intro h
    have h := ((ha.classified seg _).mp ((hd.contains _ seg).mp h).1).2.2
    show (table.record seg).live = 0
    rw [(hrecord seg).2.1]
    exact h
  · -- What was on the list of a log has been struck.
    intro l h
    obtain ⟨hwas, hkept⟩ := (hd.contains _ seg).mp h
    refine absurd ⟨rfl, ?_⟩ hkept
    rw [DirtyClass.dirty_concerns]
    exact Or.inr ⟨l, ((ha.classified seg _).mp hwas).2.2.2.2, rfl⟩

/-- Filing a segment in use under another log keeps an area sound, and every block live or dead. -/
theorem Sound.setLog (ha : a.Sound) (hused : a.isUsed seg = true) (log : Option Log) :
    ∃ table dirty, a.setLog seg log = .ok { a with table, dirty } ∧
      ({ a with table, dirty } : Area).Sound ∧
      ∀ s, (table.record s).map = (a.table.record s).map := by
  have hseg := ha.lt_of_used hused
  obtain ⟨d, hd, hstruck⟩ := ha.strike_unfiles hseg
  obtain ⟨dirty, hclassify, hsound, -⟩ := (ha.exceptAt_relogged hused hd log).classify
  obtain ⟨-, hrecord⟩ := SegmentTable.replace_spec ha.table hseg
    (s := { a.table.record seg with log }) rfl rfl
  refine ⟨_, dirty, ?_, hsound, fun s => (hrecord s).1⟩
  unfold Area.setLog
  rw [SegmentTable.get_eq (ha.lt_size hseg), Guarded.ok_bind]
  exact (hstruck _).trans hclassify

end Area

end Reclaim
