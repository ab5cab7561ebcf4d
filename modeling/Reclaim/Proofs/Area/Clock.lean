import Reclaim.Proofs.Area.Ages
import Reclaim.Proofs.Area.Frame
import Reclaim.Proofs.Area.Checkpoint

/-!
# Areas that a clock of 32 bits keeps in order

A write pulls the average age of a segment towards its own time, so ages stay below what the clock
stays below. With a clock of 32 bits no age leaves 32 bits then, and the sum behind an average has
room in 64 (`SegmentTable.Clocked.fill`). An area is `Ready` when it is sound, its ages have 32
bits, and the cursors of the victim search are segments of the area: requests, drops and checkpoints
give a result in such an area and leave it ready.
-/

namespace Reclaim

/-- The blocks of a segment are counted in 32 bits. -/
theorem Geometry.segmentBlocks_lt {g : Geometry} (hg : g.Valid) : g.segmentBlocks < 2 ^ 32 := by
  have hend := end_lt hg
  have hle := Nat.le_mul_of_pos_left g.segmentBlocks hg.segments_pos
  omega

/-! ## Ages -/

/-- A dead block of a segment is written at any time of the clock, and the age of the segment keeps
32 bits. -/
theorem Segment.exists_fill {s : Segment} {blocks off now : ℕ} (hs : s.WellFormed blocks)
    (hblocks : blocks < 2 ^ 32) (hoff : off < blocks) (hdead : s.isLive off = false)
    (hage : s.mtime < 2 ^ 32) (hnow : now < 2 ^ 32) :
    ∃ s', s.fill off now = .ok (true, s') ∧ s'.mtime < 2 ^ 32 := by
  have hroom : s.mtime * s.live + now < 2 ^ 64 := by
    have hlive := live_le hs
    calc s.mtime * s.live + now ≤ (2 ^ 32 - 1) * (2 ^ 32 - 1) + (2 ^ 32 - 1) :=
          Nat.add_le_add (Nat.mul_le_mul (by omega) (by omega)) (by omega)
      _ < 2 ^ 64 := by decide
  obtain ⟨s', hfill, -⟩ := fill_in_room hs hoff hdead hroom
  obtain ⟨-, map, rfl⟩ := (fill_cases hfill).resolve_left fun h => nomatch h.1
  exact ⟨_, hfill, (mean_between _ _ _).2.trans_lt (max_lt hage hnow)⟩

namespace SegmentTable

variable {t t' : SegmentTable} {g : Geometry} {seg : ℕ}

/-- Every age is one that a clock of 32 bits can have given. -/
def Clocked (t : SegmentTable) : Prop := ∀ seg, (t.record seg).mtime < 2 ^ 32

/-- No age has been noted in an empty table. -/
theorem clocked_empty (g : Geometry) : (empty g).Clocked := by
  intro seg
  unfold record empty
  dsimp only
  rw [Array.getElem?_replicate]
  split_ifs
  · exact Nat.two_pow_pos 32
  · exact Nat.two_pow_pos 32

/-- Replacing a record by one with an age of 32 bits keeps all ages in 32 bits. -/
theorem Clocked.put (h : t.Clocked) (hseg : seg < t.records.size) {s : Segment}
    (hs : s.mtime < 2 ^ 32) : (t.put seg s).Clocked := by
  intro k
  rw [record_put hseg]
  split_ifs
  · exact hs
  · exact h k

/-- A dead block of the area is written at any time of the clock, and all ages keep 32 bits. -/
theorem Clocked.fill (h : t.Clocked) (hg : g.Valid) (ht : t.WellFormed g)
    (hseg : seg < g.segments) {off now : ℕ} (hoff : off < g.segmentBlocks)
    (hdead : (t.record seg).isLive off = false) (hnow : now < 2 ^ 32) :
    ∃ t', t.fill seg off now = .ok (true, t') ∧ t'.Clocked := by
  have hlt : seg < t.records.size := by rw [ht.size]; exact hseg
  obtain ⟨s, hfill, hage⟩ := Segment.exists_fill (ht.records seg hseg)
    (Geometry.segmentBlocks_lt hg) hoff hdead (h seg) hnow
  refine ⟨{ t.put seg s with live := t.live + 1, newest := max t.newest now }, ?_, h.put hlt hage⟩
  unfold SegmentTable.fill
  rw [get_eq hlt, Guarded.ok_bind, hfill]
  rfl

/-- Dropping a block leaves all ages in 32 bits. -/
theorem Clocked.drop (h : t.Clocked) {off : ℕ} {changed : Bool}
    (hdrop : t.drop seg off = .ok (changed, t')) : t'.Clocked := by
  unfold SegmentTable.drop at hdrop
  obtain ⟨s, hget, hdrop⟩ := Guarded.bind_eq_ok.mp hdrop
  obtain ⟨hlt, rfl⟩ := get_eq_ok.mp hget
  obtain ⟨⟨dropped, s'⟩, hs, hdrop⟩ := Guarded.bind_eq_ok.mp hdrop
  have hput := h.put hlt (s := s') (by rw [Segment.mtime_of_drop hs]; exact h seg)
  dsimp only at hdrop
  split_ifs at hdrop
  · obtain ⟨live, -, hdrop⟩ := Guarded.bind_eq_ok.mp hdrop
    cases hdrop
    exact hput
  · cases hdrop
    exact h

/-- A change of a record that leaves its age alone leaves all ages in 32 bits. -/
theorem Clocked.update (h : t.Clocked) {f : Segment → Segment} (hf : ∀ s, (f s).mtime = s.mtime)
    (hupdate : t.update seg f = .ok t') : t'.Clocked := by
  obtain ⟨hlt, rfl⟩ := update_eq_ok.mp hupdate
  exact h.put hlt (by rw [hf]; exact h seg)

/-- A checkpoint leaves all ages in 32 bits. -/
theorem Clocked.save (h : t.Clocked) : t.save.Clocked := by
  intro seg
  have hage := h seg
  unfold record SegmentTable.save at *
  dsimp only
  rw [Array.getElem?_map]
  cases hs : t.records[seg]? with
  | none =>
    rw [hs] at hage
    exact hage
  | some s =>
    rw [hs] at hage
    exact hage

/-- Whether all ages have 32 bits depends on the records alone. -/
theorem Clocked.of_records (h : t.Clocked) (hrecords : t'.records = t.records) : t'.Clocked := by
  unfold Clocked
  rw [record_of_records hrecords]
  exact h

end SegmentTable

namespace Area

variable {a a' : Area} {seg : ℕ} {log : Log}

/-- Opening a segment leaves all ages in 32 bits. -/
theorem clocked_of_openSegment (ha : a.table.Clocked) (h : a.openSegment log seg = .ok a') :
    a'.table.Clocked := by
  unfold openSegment at h
  obtain ⟨free, -, h⟩ := Guarded.bind_eq_ok.mp h
  obtain ⟨table, hupdate, h⟩ := Guarded.bind_eq_ok.mp h
  cases h
  exact ha.update (f := fun s => { s with log := some log }) (fun _ => rfl) hupdate

/-- Opening the first segments of the logs leaves all ages in 32 bits. -/
theorem clocked_of_openLogs : ∀ {logs : List Log} {a : Area} {hint : ℕ}, a.table.Clocked →
    a.openLogs logs hint = .ok (.ok a') → a'.table.Clocked
  | [], _, _, ha, h => by
    cases h
    exact ha
  | log :: logs, a, hint, ha, h => by
    unfold openLogs at h
    split at h
    · cases h
    · obtain ⟨a₁, hopen, h⟩ := Guarded.bind_eq_ok.mp h
      exact clocked_of_openLogs (clocked_of_openSegment ha hopen) h

/-- Moving a log on leaves all ages in 32 bits. -/
theorem clocked_of_advance {r : Outcome Unit} (ha : a.table.Clocked)
    (h : a.advance log = .ok (r, a')) : a'.table.Clocked := by
  unfold advance at h
  dsimp only at h
  split at h
  · cases h
    exact ha
  · obtain ⟨a₁, hopen, h⟩ := Guarded.bind_eq_ok.mp h
    obtain ⟨a₂, hclassify, h⟩ := Guarded.bind_eq_ok.mp h
    cases h
    have hopened := clocked_of_openSegment ha hopen
    obtain ⟨dirty, rfl⟩ := classify_eq hclassify
    exact hopened

/-- Dropping a block of the area leaves all ages in 32 bits. -/
theorem clocked_of_invalidate {addr : Address} {r : Outcome Unit} (ha : a.table.Clocked)
    (h : a.invalidate addr = .ok (r, a')) : a'.table.Clocked := by
  rcases invalidate_cases h with hsame | ⟨seg, table, -, hdrop, hclassify⟩
  · rw [hsame]
    exact ha
  · obtain ⟨dirty, rfl⟩ := classify_eq hclassify
    exact ha.drop hdrop

/-- A sound area whose ages have 32 bits answers a request for a block at a time of 32 bits, and is
such an area then. -/
theorem Sound.exists_allocate (ha : a.Sound) (hclocked : a.table.Clocked) (log : Option Log)
    {now : ℕ} (hnow : now < 2 ^ 32) :
    ∃ r a', a.allocate log now = .ok (r, a') ∧ a'.Sound ∧ a'.table.Clocked := by
  refine Area.exists_allocate (I := fun a => a.Sound ∧ a.table.Clocked) (fun ha => ha.1.geometry)
    ?_ ?_ log ⟨ha, hclocked⟩
  · rintro a log ⟨ha, hclocked⟩
    rcases ha.advance log with hstay | ⟨a', hmove, ha', -⟩
    · exact ⟨_, a, hstay, ha, hclocked⟩
    · exact ⟨_, a', hmove, ha', clocked_of_advance hclocked hmove⟩
  · rintro a log ⟨ha, hclocked⟩ hnext
    obtain ⟨hused, -, hdead⟩ := ha.heads log
    obtain ⟨table, hfill, hclocked'⟩ := hclocked.fill ha.geometry ha.table (ha.lt_of_used hused)
      hnext (hdead _ le_rfl) hnow
    rcases ha.fill_spec hnext now with htrap | ⟨table', hfill', hfilled⟩
    · rw [htrap] at hfill
      cases hfill
    · cases hfill'.symm.trans hfill
      exact ⟨true, table, hfill, hfilled.sound ha hnext, hclocked'⟩

/-! ## Ready areas -/

/-- A sound area whose ages have 32 bits and whose searches resume in the area. -/
structure Ready (a : Area) : Prop extends Sound a where
  /-- Every age has 32 bits. -/
  clocked : a.table.Clocked
  /-- The cursors are segments of the area. -/
  cursors : ∀ ranking, a.cursors.get ranking < a.geometry.segments

/-- An operation that moves no cursor leaves an area ready if it leaves it sound and its ages in 32
bits. -/
theorem Ready.of_framed (ha : a.Ready) (h : a.Framed a') (hsound : a'.Sound)
    (hclocked : a'.table.Clocked) : a'.Ready where
  toSound := hsound
  clocked := hclocked
  cursors ranking := by
    rw [h.cursors, h.geometry]
    exact ha.cursors ranking

/-- A created area is ready. -/
theorem create_ready {l : Layout} (h : create l = .ok (.ok a)) : a.Ready := by
  have hsound := create_sound h
  unfold create at h
  split at h
  · cases h
  · have hframed := framed_of_openLogs h
    refine ⟨hsound, clocked_of_openLogs (SegmentTable.clocked_empty _) h, fun ranking => ?_⟩
    rw [hframed.cursors]
    cases ranking <;> exact hsound.geometry.segments_pos

/-- In a ready area a request for a block at a time of 32 bits gives a result, and the area stays
ready. -/
theorem Ready.allocate (ha : a.Ready) (log : Option Log) {now : ℕ} (hnow : now < 2 ^ 32) :
    ∃ r a', a.allocate log now = .ok (r, a') ∧ a'.Ready := by
  obtain ⟨r, a', h, hsound, hclocked⟩ := ha.toSound.exists_allocate ha.clocked log hnow
  exact ⟨r, a', h, ha.of_framed (framed_of_allocate h) hsound hclocked⟩

/-- In a ready area dropping the block at an address gives a result, and the area stays ready. -/
theorem Ready.invalidate (ha : a.Ready) (addr : Address) :
    ∃ r a', a.invalidate addr = .ok (r, a') ∧ a'.Ready := by
  obtain ⟨r, table, dirty, h, hsound, -⟩ := ha.toSound.invalidate addr
  exact ⟨r, _, h,
    ha.of_framed (framed_of_invalidate h) hsound (clocked_of_invalidate ha.clocked h)⟩

/-- In a ready area a checkpoint gives a result, and the area stays ready. -/
theorem Ready.checkpoint (ha : a.Ready) : ∃ n a', a.checkpoint = .ok (n, a') ∧ a'.Ready := by
  obtain ⟨n, a', h, hspec⟩ := ha.toSound.checkpoint
  refine ⟨n, a', h, ha.of_framed (framed_of_checkpoint h) hspec.sound ?_⟩
  rw [hspec.table]
  exact ha.clocked.save

end Area

end Reclaim
