import Reclaim.Proofs.Area.Runs

/-!
# A checkpoint frees exactly the dead space

An area that a run reaches has every closed segment without a live block on its prefree list, since
it is sound. A checkpoint frees what is on that list, so no dead space is left in use after it
(`checkpoint_frees_dead_space`), and a second checkpoint finds nothing to do. What a checkpoint
touches is read off it without the invariant: the notes of the live counts, the prefree list and the
free maps (`checkpoint_eq`).
-/

namespace Reclaim

/-- Live counts that have been noted are noted once and for all. -/
theorem SegmentTable.save_save (t : SegmentTable) : t.save.save = t.save := by
  have hsave : Segment.save ∘ Segment.save = Segment.save := rfl
  unfold save
  simp only [Array.map_map, hsave]

/-- A checkpoint notes the live count of a record and keeps the rest of it. -/
theorem SegmentTable.record_save_eq (t : SegmentTable) (seg : ℕ) :
    t.save.record seg = { t.record seg with saved := (t.record seg).live } := by
  unfold save record
  dsimp only
  rw [Array.getElem?_map]
  cases t.records[seg]? with
  | none => rfl
  | some s => rfl

/-- A free section is the one that is found first from itself on. -/
theorem FreeMap.find?_self {f : FreeMap} {g : Geometry} {sec : ℕ} (hsec : sec < g.sections)
    (hfree : f.usedSections.contains sec = false) : f.find? g sec = some sec := by
  obtain ⟨left, hleft⟩ : ∃ left, g.sections = left + 1 := ⟨g.sections - 1, by omega⟩
  have hhere : sec % (left + 1) = sec := Nat.mod_eq_of_lt (by omega)
  unfold find?
  rw [hleft]
  unfold findFrom?
  rw [hhere, hfree]
  rfl

/-- A section can be found when it is free, and only then. -/
theorem FreeMap.exists_find?_iff {f : FreeMap} {g : Geometry} (hg : g.Valid) {sec : ℕ}
    (hsec : sec < g.sections) :
    (∃ hint, f.find? g hint = some sec) ↔ f.usedSections.contains sec = false :=
  ⟨fun ⟨_, h⟩ => (find?_eq_some hg h).2, fun h => ⟨sec, find?_self hsec h⟩⟩

namespace Area

variable {a a' : Area} {seg : ℕ}

/-! ## What a checkpoint touches -/

/-- Freeing a prefree segment touches the prefree list and the free maps. -/
theorem releaseSegment_eq (h : a.releaseSegment seg = .ok a') :
    ∃ prefree free, a' = { a with dirty := { a.dirty with prefree }, free } := by
  unfold releaseSegment at h
  obtain ⟨s, -, h⟩ := Guarded.bind_eq_ok.mp h
  obtain ⟨dirty, hstrike, h⟩ := Guarded.bind_eq_ok.mp h
  obtain ⟨⟨freed, free⟩, -, h⟩ := Guarded.bind_eq_ok.mp h
  -- Unlike a dirty segment, a prefree one is struck from its list alone.
  rw [DirtyLists.strike_eq_remove _ _ (by decide)] at hstrike
  obtain ⟨prefree, -, hstrike⟩ := Guarded.bind_eq_ok.mp hstrike
  cases hstrike
  cases h
  exact ⟨prefree, free, rfl⟩

/-- Freeing a list of segments touches the prefree list and the free maps. -/
theorem releaseAll_eq : ∀ {segs : List ℕ} {a : Area}, a.releaseAll segs = .ok a' →
    ∃ prefree free, a' = { a with dirty := { a.dirty with prefree }, free }
  | [], a, h => by
    cases h
    exact ⟨a'.dirty.prefree, a'.free, rfl⟩
  | seg :: segs, a, h => by
    unfold releaseAll at h
    obtain ⟨a₁, hfirst, hrest⟩ := Guarded.bind_eq_ok.mp h
    obtain ⟨prefree₁, free₁, rfl⟩ := releaseSegment_eq hfirst
    obtain ⟨prefree, free, rfl⟩ := releaseAll_eq hrest
    exact ⟨prefree, free, rfl⟩

/-- A checkpoint touches the notes of the live counts, the prefree list and the free maps. -/
theorem checkpoint_eq {n : ℕ} (h : a.checkpoint = .ok (n, a')) :
    ∃ prefree free,
      a' = { a with table := a.table.save, dirty := { a.dirty with prefree }, free } := by
  unfold checkpoint at h
  obtain ⟨a₁, hrelease, h⟩ := Guarded.bind_eq_ok.mp h
  obtain ⟨prefree, free, rfl⟩ := releaseAll_eq hrelease
  cases h
  exact ⟨prefree, free, rfl⟩

/-! ## Dead space -/

/-- A segment is dead when none of its blocks is live and no log has it open. -/
def Dead (a : Area) (seg : ℕ) : Prop :=
  a.isOpen seg = false ∧ ∀ off, (a.table.record seg).isLive off = false

/-- A sound area without a prefree segment has no dead segment in use. -/
theorem Sound.unused_iff_dead (ha : a.Sound)
    (hprefree : ∀ seg, a.dirty.contains .prefree seg = false) (hseg : seg < a.geometry.segments) :
    a.isUsed seg = false ↔ a.Dead seg := by
  have hempty := Segment.live_eq_zero_iff (ha.table.records seg hseg)
  constructor
  · intro hunused
    refine ⟨?_, hempty.mp (ha.unused_dead seg hunused)⟩
    rw [isOpen_eq_false_iff]
    -- An open segment is in use.
    rintro log rfl
    rw [(ha.heads log).used] at hunused
    cases hunused
  · rintro ⟨hclosed, hdead⟩
    -- In use, the segment would be listed as prefree.
    by_contra hused
    rw [Bool.not_eq_false] at hused
    have hlisted := (ha.classified seg .prefree).mpr ⟨hused, hclosed, hempty.mpr hdead⟩
    rw [hprefree] at hlisted
    cases hlisted

/-- In a sound area without a prefree segment the free sections are those of dead segments. -/
theorem Sound.section_free_iff_dead (ha : a.Sound)
    (hprefree : ∀ seg, a.dirty.contains .prefree seg = false) {sec : ℕ}
    (hsec : sec < a.geometry.sections) :
    a.free.usedSections.contains sec = false ↔
      ∀ seg, a.geometry.sectionOf seg = sec → a.Dead seg := by
  rw [← Bool.not_eq_true, ha.free.section_used]
  simp only [not_exists, not_and, Bool.not_eq_true]
  refine forall₂_congr fun seg hseg => ?_
  have hlt := Geometry.lt_segments_of_sectionOf ha.geometry hsec hseg
  exact ha.unused_iff_dead hprefree hlt

/-- The area after a checkpoint, by the area before it: no dead space is in use, and nothing else
has changed. -/
structure DeadSpaceFreed (a : Area) (n : ℕ) (a' : Area) : Prop where
  /-- The segments that are not in use are the dead ones. -/
  segments : ∀ seg < a.geometry.segments, a'.isUsed seg = false ↔ a'.Dead seg
  /-- The sections that can be found for a log are those of dead segments. -/
  sections : ∀ sec < a.geometry.sections, (∃ hint, a'.free.find? a.geometry hint = some sec) ↔
    ∀ seg, a.geometry.sectionOf seg = sec → a'.Dead seg
  /-- The number told is that of the segments that have gone out of use. -/
  count : n = ((Finset.range a.geometry.segments).filter fun seg =>
    a.isUsed seg = true ∧ a'.isUsed seg = false).card
  /-- The live count of every segment is noted in its record, which is otherwise the same. -/
  records : ∀ seg, a'.table.record seg =
    { a.table.record seg with saved := (a.table.record seg).live }
  /-- The area has as many live blocks as before, of the same ages. -/
  totals : a'.table.live = a.table.live ∧ a'.table.oldest = a.table.oldest ∧
    a'.table.newest = a.table.newest
  /-- No segment is prefree. -/
  prefree : a'.dirty.count .prefree = 0 ∧ ∀ seg, a'.dirty.contains .prefree seg = false
  /-- The other lists, the staged sections, the cursors, the section under collection, the logs and
  the settings are the same. -/
  rest : a' = { a with
    table := a'.table, dirty := { a.dirty with prefree := a'.dirty.prefree }, free := a'.free }

/-- A checkpoint of a sound area leaves no dead space in use and changes nothing else. -/
theorem Checkpointed.deadSpaceFreed {n : ℕ} (ha : a.Sound) (h : a.Checkpointed n a')
    (hran : a.checkpoint = .ok (n, a')) : a.DeadSpaceFreed n a' := by
  have hgeometry := h.geometry
  -- What was prefree has been freed, and a checkpoint lists nothing.
  have hprefree : ∀ seg, a'.dirty.contains .prefree seg = false := by
    intro seg
    rw [← Bool.not_eq_true, h.lists]
    exact fun hlisted => hlisted.2 rfl
  have hroster := h.sound.dirty.roster .prefree
  refine ⟨?_, ?_, ?_, ?_, ?_, ⟨?_, hprefree⟩, ?_⟩
  · intro seg hseg
    exact h.sound.unused_iff_dead hprefree (by rw [hgeometry]; exact hseg)
  · intro sec hsec
    rw [FreeMap.exists_find?_iff ha.geometry hsec, h.sound.section_free_iff_dead hprefree
      (by rw [hgeometry]; exact hsec), hgeometry]
  · -- The prefree segments were in use, and no other segment has gone out of use.
    rw [h.count]
    congr 1
    ext seg
    have hused : a'.isUsed seg = false ↔ ¬(a.isUsed seg = true ∧
        a.dirty.contains .prefree seg = false) := by rw [← h.used, Bool.not_eq_true]
    have hlisted : a.dirty.contains .prefree seg = true → a.isUsed seg = true :=
      fun hlisted => ((ha.classified seg .prefree).mp hlisted).1
    rw [Bitmap.mem_toFinset, Finset.mem_filter, Finset.mem_range, hused, not_and,
      Bool.not_eq_false]
    constructor
    · intro hmem
      exact ⟨ha.lt_of_used (hlisted hmem), hlisted hmem, fun _ => hmem⟩
    · rintro ⟨-, hin, hout⟩
      exact hout hin
  · intro seg
    rw [h.table]
    exact SegmentTable.record_save_eq a.table seg
  · rw [h.table]
    exact ⟨rfl, rfl, rfl⟩
  · show (a'.dirty.roster .prefree).count = 0
    rw [hroster.count_eq, Finset.card_eq_zero]
    ext seg
    simpa [DirtyLists.contains] using hprefree seg
  · obtain ⟨prefree, free, rfl⟩ := checkpoint_eq hran
    rfl

/-- A checkpoint right after another one frees nothing and changes nothing. -/
theorem checkpoint_of_saved (hsaved : a.table.save = a.table)
    (hprefree : ∀ seg, a.dirty.contains .prefree seg = false)
    (hmap : a.dirty.prefree.map.WellFormed) : a.checkpoint = .ok (0, a) := by
  have hnone : a.dirty.prefree.map.toList = [] := by
    refine List.eq_nil_iff_forall_not_mem.mpr fun seg hmem => ?_
    have hlisted : a.dirty.contains .prefree seg = true := (Bitmap.mem_toList hmap seg).mp hmem
    rw [hprefree] at hlisted
    cases hlisted
  unfold checkpoint
  dsimp only
  rw [hnone, hsaved]
  rfl

/-- In every area that a run from a created one reaches, a checkpoint frees exactly the dead space:
afterwards a segment is free when it is dead, and a section when all of its segments are. The
number it tells is that of the segments it has freed, the live counts are noted and nothing else
changes; and another checkpoint right after it frees nothing and changes nothing. -/
theorem checkpoint_frees_dead_space {l : Layout} {a₀ : Area} {events : List Event}
    (hcreate : create l = .ok (.ok a₀)) (h : Run a₀ events a) :
    ∃ n a', a.checkpoint = .ok (n, a') ∧ a.DeadSpaceFreed n a' ∧
      a'.checkpoint = .ok (0, a') := by
  obtain ⟨ha, -⟩ := h.sound (create_sound hcreate)
  obtain ⟨n, a', hran, hspec⟩ := ha.checkpoint
  have hfreed := hspec.deadSpaceFreed ha hran
  refine ⟨n, a', hran, hfreed, checkpoint_of_saved ?_ hfreed.prefree.2 ?_⟩
  · rw [hspec.table, SegmentTable.save_save]
  · exact (hspec.sound.dirty.roster .prefree).map

/-- A segment that is filled, left and emptied is freed by the checkpoint, and its section with
it. -/
theorem checkpoint_frees_dead_space_emptied : ∃ a₀ events a n a',
    create tinyLayout = .ok (.ok a₀) ∧ Run a₀ events a ∧ a.isUsed 0 = true ∧
    a.checkpoint = .ok (n, a') ∧ n = 1 ∧ a'.isUsed 0 = false ∧ a.DeadSpaceFreed n a' ∧
    a'.checkpoint = .ok (0, a') := by
  obtain ⟨a₀, events, a, hcreate, hrun, h⟩ := Run.of_reaches tinyLayout
    [.allocate (some Log.hotData) 5, .allocate (some Log.hotData) 6, .invalidate 64, .invalidate 65]
    (fun _ a => a.isUsed 0 && match a.checkpoint with
      | .ok (n, a') => n = 1 && !a'.isUsed 0
      | .error _ => false) (by decide +kernel)
  obtain ⟨n, a', hran, hfreed, hagain⟩ := checkpoint_frees_dead_space hcreate hrun
  rw [hran] at h
  simp only [Bool.and_eq_true, decide_eq_true_eq, Bool.not_eq_true'] at h
  exact ⟨a₀, events, a, n, a', hcreate, hrun, h.1, hran, h.2.1, h.2.2, hfreed, hagain⟩

end Area

end Reclaim
