import Reclaim.Proofs.Area.Classify
import Reclaim.Proofs.Area.Frame

/-!
# Counters that stay exact

The table counts live blocks, the dirty lists count their members and the free maps count what is
free. These counters do not depend on whether the lists hold the right segments: every operation
adds to a counter exactly when it adds to the map beside it, so they stay exact even when segments
that are free or open are filed on request (`Tallied`). All that is asked of the logs is that they
stand in segments of the area.
-/

namespace Reclaim

/-- Writing a block of a segment, dead or live, keeps the counts of the table. -/
theorem SegmentTable.wellFormed_of_fill {t t' : SegmentTable} {g : Geometry} {seg off now : ℕ}
    {changed : Bool} (ht : t.WellFormed g) (hseg : seg < g.segments) (hoff : off < g.segmentBlocks)
    (h : t.fill seg off now = .ok (changed, t')) : t'.WellFormed g := by
  cases hlive : (t.record seg).isLive off with
  | false =>
    rcases SegmentTable.fill_spec ht hseg hoff hlive now with htrap | ⟨t₁, s, hfill, ht₁, -⟩
    · rw [htrap] at h
      cases h
    · cases hfill.symm.trans h
      exact ht₁
  | true =>
    -- A block that is live already changes nothing.
    unfold fill at h
    rw [get_eq (ht.size.symm ▸ hseg), Guarded.ok_bind,
      Segment.fill_of_isLive (ht.records seg hseg) hlive] at h
    cases h
    exact ht

namespace Area

variable {a a' : Area} {seg : ℕ}

/-- The counters of an area are exact, and its logs stand in segments of the area. -/
structure Tallied (a : Area) : Prop where
  /-- The geometry is an accepted one. -/
  geometry : a.geometry.Valid
  /-- The table counts the live blocks. -/
  table : a.table.WellFormed a.geometry
  /-- The dirty lists count their members. -/
  dirty : a.dirty.WellFormed a.geometry.segments a.geometry.sections
  /-- The free maps count what is free. -/
  free : a.free.WellFormed a.geometry
  /-- The logs stand in segments of the area. -/
  heads : ∀ log, (a.heads.get log).segment < a.geometry.segments

/-- Sound areas have exact counters. -/
theorem Sound.tallied (ha : a.Sound) : a.Tallied :=
  ⟨ha.geometry, ha.table, ha.dirty, ha.free, fun log => ha.lt_of_used (ha.heads log).used⟩

/-- A segment whose record is found is one of the area. -/
theorem Tallied.lt_of_get (ha : a.Tallied) {s : Segment} (h : a.table.get seg = .ok s) :
    seg < a.geometry.segments := by
  rw [← ha.table.size]
  exact (SegmentTable.get_eq_ok.mp h).1

/-- The counters stay exact when a segment is classified, whatever lists it is on. -/
theorem Tallied.classify (ha : a.Tallied) (h : a.classify seg = .ok a') : a'.Tallied := by
  unfold Area.classify at h
  split_ifs at h with hopen
  · cases h
    exact ha
  · obtain ⟨s, hget, h⟩ := Guarded.bind_eq_ok.mp h
    obtain ⟨live, -, h⟩ := Guarded.bind_eq_ok.mp h
    have hseg := ha.lt_of_get hget
    dsimp only at h
    -- Without a live block in the segment, its section may have to be unstaged.
    generalize hemptied : (if live = 0 then some (a.geometry.sectionOf seg) else none) = emptied at h
    have hsec : ∀ sec, emptied = some sec → sec < a.geometry.sections := by
      rintro sec rfl
      split_ifs at hemptied
      cases hemptied
      exact Geometry.sectionOf_lt ha.geometry hseg
    split_ifs at h
    · obtain ⟨d, henter, h⟩ := Guarded.bind_eq_ok.mp h
      obtain ⟨dirty, hstrike, h⟩ := Guarded.bind_eq_ok.mp h
      cases h
      have hd := DirtyLists.wellFormed_of_enter ha.dirty hseg henter
      exact { ha with dirty := DirtyLists.wellFormed_of_strike_dirty hd hseg hsec hstrike }
    · obtain ⟨dirty, henter, h⟩ := Guarded.bind_eq_ok.mp h
      cases h
      exact { ha with dirty := DirtyLists.wellFormed_of_enter ha.dirty hseg henter }
    · obtain ⟨dirty, hstrike, h⟩ := Guarded.bind_eq_ok.mp h
      cases h
      exact { ha with dirty := DirtyLists.wellFormed_of_strike_dirty ha.dirty hseg hsec hstrike }

/-- The counters stay exact when a block is dropped. -/
theorem Tallied.invalidate (ha : a.Tallied) {addr : Address} {r : Outcome Unit}
    (h : a.invalidate addr = .ok (r, a')) : a'.Tallied := by
  rcases invalidate_cases h with hsame | ⟨seg, table, haddr, hdrop, hclassify⟩
  · rw [hsame]
    exact ha
  · obtain ⟨hseg, hoff, -⟩ := Geometry.eq_block_of_segmentOf? ha.geometry haddr
    obtain ⟨t, hdrop', hdropped⟩ := SegmentTable.drop_spec ha.table hseg hoff
    obtain ⟨-, rfl⟩ := Prod.mk.inj (Except.ok.inj (hdrop'.symm.trans hdrop))
    have ha₁ : ({ a with table := t } : Area).Tallied := { ha with table := hdropped.wellFormed }
    exact ha₁.classify hclassify

/-- The counters stay exact when a log moves on. -/
theorem Tallied.advance (ha : a.Tallied) {log : Log} {r : Outcome Unit}
    (h : a.advance log = .ok (r, a')) : a'.Tallied := by
  unfold Area.advance at h
  dsimp only at h
  split at h
  · cases h
    exact ha
  · next seg hnext =>
    obtain ⟨a₁, hopen, h⟩ := Guarded.bind_eq_ok.mp h
    obtain ⟨a₂, hclassify, h⟩ := Guarded.bind_eq_ok.mp h
    cases h
    refine Tallied.classify ?_ hclassify
    -- Opening the segment takes it from the free ones and files it under the log.
    unfold openSegment at hopen
    obtain ⟨free, htake, hopen⟩ := Guarded.bind_eq_ok.mp hopen
    obtain ⟨table, hupdate, hopen⟩ := Guarded.bind_eq_ok.mp hopen
    cases hopen
    obtain ⟨hlt, rfl⟩ := SegmentTable.update_eq_ok.mp hupdate
    have hseg : seg < a.geometry.segments := ha.table.size ▸ hlt
    obtain ⟨f, htake', hfree, -⟩ := FreeMap.take_spec ha.geometry ha.free hseg
    cases htake'.symm.trans htake
    obtain ⟨htable, -⟩ := SegmentTable.replace_spec ha.table hseg
      (s := { a.table.record seg with log := some log }) rfl rfl
    refine ⟨ha.geometry, htable, ha.dirty, hfree, fun l => ?_⟩
    dsimp only
    rw [PerLog.get_set]
    split_ifs
    · exact hseg
    · exact ha.heads l

/-- The counters stay exact when a block is requested. -/
theorem Tallied.allocate (ha : a.Tallied) {log : Option Log} {now : ℕ} {r : Outcome Address}
    (h : a.allocate log now = .ok (r, a')) : a'.Tallied := by
  refine keeps_allocate (fun ha => ha.geometry) (fun ha => ha.advance) ?_ ha h
  intro a log changed table ha hnext hfill
  have hseg := ha.heads log
  refine ⟨ha.geometry, SegmentTable.wellFormed_of_fill ha.table hseg hnext hfill, ha.dirty, ha.free,
    fun l => ?_⟩
  dsimp only
  rw [PerLog.get_set]
  split_ifs
  · exact hseg
  · exact ha.heads l

/-- The counters stay exact when prefree segments are freed, in use or not. -/
theorem Tallied.releaseAll : ∀ {segs : List ℕ} {a : Area}, a.Tallied →
    a.releaseAll segs = .ok a' → a'.Tallied
  | [], a, ha, h => by
    cases h
    exact ha
  | seg :: segs, a, ha, h => by
    unfold Area.releaseAll at h
    obtain ⟨a₁, hrelease, h⟩ := Guarded.bind_eq_ok.mp h
    refine Tallied.releaseAll ?_ h
    -- One segment leaves the prefree list and the segments in use, if it was there.
    unfold releaseSegment at hrelease
    obtain ⟨s, hget, hrelease⟩ := Guarded.bind_eq_ok.mp hrelease
    obtain ⟨dirty, hstrike, hrelease⟩ := Guarded.bind_eq_ok.mp hrelease
    obtain ⟨⟨freed, free⟩, hfree, hrelease⟩ := Guarded.bind_eq_ok.mp hrelease
    cases hrelease
    have hseg := ha.lt_of_get hget
    rw [DirtyLists.strike_eq_remove _ _ (by decide)] at hstrike
    obtain ⟨d, hremove, hd, -⟩ := DirtyLists.remove_spec ha.dirty .prefree hseg
    cases hremove.symm.trans hstrike
    obtain ⟨f, hfree', hf, -⟩ := FreeMap.release_spec ha.geometry ha.free hseg
    cases hfree'.symm.trans hfree
    exact { ha with dirty := hd, free := hf }

/-- The counters stay exact at a checkpoint. -/
theorem Tallied.checkpoint (ha : a.Tallied) {n : ℕ} (h : a.checkpoint = .ok (n, a')) :
    a'.Tallied := by
  unfold Area.checkpoint at h
  obtain ⟨a₁, hrelease, h⟩ := Guarded.bind_eq_ok.mp h
  cases h
  have hsaved : ({ a with table := a.table.save } : Area).Tallied :=
    { ha with table := SegmentTable.wellFormed_save ha.table }
  exact hsaved.releaseAll hrelease

/-- The counters stay exact when any segment is filed under any log. -/
theorem Tallied.setLog (ha : a.Tallied) {log : Option Log} (h : a.setLog seg log = .ok a') :
    a'.Tallied := by
  unfold Area.setLog at h
  obtain ⟨s, hget, h⟩ := Guarded.bind_eq_ok.mp h
  have hseg := ha.lt_of_get hget
  obtain ⟨-, rfl⟩ := SegmentTable.get_eq_ok.mp hget
  obtain ⟨htable, -⟩ := SegmentTable.replace_spec ha.table hseg
    (s := { a.table.record seg with log }) rfl rfl
  dsimp only at h
  -- A dirty segment leaves the list of its old log before it is classified under the new one.
  split_ifs at h
  · obtain ⟨dirty, hstrike, h⟩ := Guarded.bind_eq_ok.mp h
    have hd := DirtyLists.wellFormed_of_strike_dirty ha.dirty hseg (by simp) hstrike
    refine Tallied.classify ?_ h
    exact { ha with table := htable, dirty := hd }
  · refine Tallied.classify ?_ h
    exact { ha with table := htable }

/-- The counters do not depend on ages. -/
theorem Tallied.setMtime (ha : a.Tallied) {mtime : ℕ} (h : a.setMtime seg mtime = .ok a') :
    a'.Tallied := by
  unfold Area.setMtime at h
  obtain ⟨table, hupdate, h⟩ := Guarded.bind_eq_ok.mp h
  cases h
  obtain ⟨hlt, rfl⟩ := SegmentTable.update_eq_ok.mp hupdate
  obtain ⟨htable, -⟩ := SegmentTable.replace_spec ha.table (ha.table.size ▸ hlt)
    (s := { a.table.record seg with mtime }) rfl rfl
  exact { ha with table := htable }

end Area

end Reclaim
