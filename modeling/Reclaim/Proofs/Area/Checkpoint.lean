import Reclaim.Area.Checkpoint
import Reclaim.Proofs.Area.Writing

/-!
# Checkpoints free the prefree segments

A checkpoint takes exactly the prefree segments out of use (`Sound.checkpoint`). They hold no live
block and no log has them open, so the area stays sound and no block dies. The segments are released
one by one, and the area is sound after each of them (`Sound.releaseSegment`).
-/

namespace Reclaim.Area

variable {a a' : Area} {seg : ℕ}

/-- What releasing a list of segments does: they go out of use and off the prefree list. -/
structure Released (a : Area) (segs : List ℕ) (a' : Area) : Prop where
  /-- The geometry is the same. -/
  geometry : a'.geometry = a.geometry
  /-- The records are the same. -/
  table : a'.table = a.table
  /-- The logs stand where they stood. -/
  heads : a'.heads = a.heads
  /-- The section under collection is the same. -/
  claimed : a'.claimed = a.claimed
  /-- The same sections are staged. -/
  staged : a'.dirty.staged = a.dirty.staged
  /-- The segments are off the prefree list, and nothing else changes on the lists. -/
  lists : ∀ c s, a'.dirty.contains c s = true ↔
    a.dirty.contains c s = true ∧ ¬(c = .prefree ∧ s ∈ segs)
  /-- The segments are out of use, and every other as before. -/
  used : ∀ s, a'.isUsed s = true ↔ a.isUsed s = true ∧ s ∉ segs

/-- Releasing no segment changes nothing. -/
theorem Released.nil (a : Area) : a.Released [] a :=
  ⟨rfl, rfl, rfl, rfl, rfl, by simp, by simp⟩

/-- Segments are released one after the other. -/
theorem Released.cons {a₁ : Area} {segs : List ℕ} (h : a.Released [seg] a₁)
    (h' : a₁.Released segs a') : a.Released (seg :: segs) a' where
  geometry := h'.geometry.trans h.geometry
  table := h'.table.trans h.table
  heads := h'.heads.trans h.heads
  claimed := h'.claimed.trans h.claimed
  staged := h'.staged.trans h.staged
  lists c s := by
    rw [h'.lists, h.lists, List.mem_singleton, List.mem_cons]
    tauto
  used s := by
    rw [h'.used, h.used, List.mem_singleton, List.mem_cons]
    tauto

/-- The parts of an area are well formed, whether or not they agree with each other. -/
structure Shaped (a : Area) : Prop where
  /-- The geometry is an accepted one. -/
  geometry : a.geometry.Valid
  /-- There is a record for each segment. -/
  size : a.table.records.size = a.geometry.segments
  /-- The dirty lists are well formed. -/
  dirty : a.dirty.WellFormed a.geometry.segments a.geometry.sections
  /-- The free maps are well formed. -/
  free : a.free.WellFormed a.geometry

/-- Well-formed books have well-formed parts. -/
theorem Books.shaped (ha : a.Books) : a.Shaped := ⟨ha.geometry, ha.table.size, ha.dirty, ha.free⟩

/-- Releasing a segment of the area takes it out of use and off the prefree list, whatever it
holds. -/
theorem Shaped.releaseSegment (ha : a.Shaped) (hseg : seg < a.geometry.segments) :
    ∃ dirty free, a.releaseSegment seg = .ok { a with dirty, free } ∧
      ({ a with dirty, free } : Area).Shaped ∧ a.Released [seg] { a with dirty, free } := by
  obtain ⟨dirty, hremove, hdirty, hstaged, hlists⟩ :=
    DirtyLists.remove_spec ha.dirty .prefree hseg
  obtain ⟨free, hrelease, hfree, hmem⟩ := FreeMap.release_spec ha.geometry ha.free hseg
  refine ⟨dirty, free, ?_, ⟨ha.geometry, ha.size, hdirty, hfree⟩,
    ⟨rfl, rfl, rfl, rfl, hstaged, by simpa using hlists, fun s => ?_⟩⟩
  · unfold Area.releaseSegment
    rw [SegmentTable.get_eq (by rw [ha.size]; exact hseg), Guarded.ok_bind,
      DirtyLists.strike_eq_remove _ _ (by decide), hremove, Guarded.ok_bind, hrelease]
    rfl
  · rw [List.mem_singleton, and_comm]
    exact hmem s

/-- Releasing a list of segments of the area takes them out of use and off the prefree list. -/
theorem Shaped.releaseAll : ∀ {segs : List ℕ} {a : Area}, a.Shaped →
    (∀ seg ∈ segs, seg < a.geometry.segments) →
    ∃ a', a.releaseAll segs = .ok a' ∧ a.Released segs a'
  | [], a, _, _ => ⟨a, rfl, Released.nil a⟩
  | seg :: segs, a, ha, hsegs => by
    obtain ⟨dirty, free, hfirst, ha₁, hreleased⟩ := ha.releaseSegment (hsegs seg List.mem_cons_self)
    obtain ⟨a', hrest, hreleased'⟩ :=
      ha₁.releaseAll fun s hs => hsegs s (List.mem_cons_of_mem _ hs)
    refine ⟨a', ?_, hreleased.cons hreleased'⟩
    unfold Area.releaseAll
    rw [hfirst, Guarded.ok_bind, hrest]

/-- A checkpoint takes out of use whatever is listed as prefree, and tells how much that is. -/
theorem Shaped.checkpoint (ha : a.Shaped) :
    ∃ a', a.checkpoint = .ok (a.dirty.prefree.map.toFinset.card, a') ∧
      ({ a with table := a.table.save } : Area).Released a.dirty.prefree.map.toList a' := by
  have hmap : a.dirty.prefree.map.WellFormed := (ha.dirty.roster .prefree).map
  have hsaved : ({ a with table := a.table.save } : Area).Shaped :=
    ⟨ha.geometry, by simp [SegmentTable.save, ha.size], ha.dirty, ha.free⟩
  obtain ⟨a', hrelease, hreleased⟩ := hsaved.releaseAll fun seg hseg =>
    DirtyLists.lt_of_contains ha.dirty (c := .prefree) ((Bitmap.mem_toList hmap seg).mp hseg)
  refine ⟨a', ?_, hreleased⟩
  unfold Area.checkpoint
  dsimp only
  rw [hrelease, ← Bitmap.toList_toFinset hmap,
    List.toFinset_card_of_nodup (Bitmap.toList_nodup hmap)]
  rfl

/-- Releasing a prefree segment takes it out of use and keeps the area sound. -/
theorem Sound.releaseSegment (ha : a.Sound) (hprefree : a.dirty.contains .prefree seg = true) :
    ∃ a', a.releaseSegment seg = .ok a' ∧ a'.Sound ∧ a.Released [seg] a' := by
  obtain ⟨hused, hclosed, hlive⟩ := (ha.classified seg _).mp hprefree
  obtain ⟨dirty, free, hrelease, ⟨-, -, hdirty, hfree⟩, hreleased⟩ :=
    ha.shaped.releaseSegment (ha.lt_of_used hused)
  have hin : ∀ s, ({ a with dirty, free } : Area).isUsed s = true ↔
      s ≠ seg ∧ a.isUsed s = true := by
    intro s
    rw [hreleased.used, List.mem_singleton, and_comm]
  have hlists : ∀ c s, dirty.contains c s = true ↔
      a.dirty.contains c s = true ∧ ¬(c = .prefree ∧ s = seg) := by
    simpa using hreleased.lists
  have hstaged : dirty.staged = a.dirty.staged := hreleased.staged
  refine ⟨{ a with dirty, free }, hrelease, ?_, hreleased⟩
  refine ⟨⟨ha.geometry, ha.table, hdirty, hfree, ?_⟩, ?_, ha.apart, ?_, ?_, ?_⟩
  · -- The segment that goes out of use is prefree, so it holds no live block.
    intro s hs
    by_cases hsame : s = seg
    · rw [hsame]
      exact hlive
    · refine ha.unused_dead s ?_
      rw [← Bool.not_eq_true] at hs ⊢
      exact fun h => hs ((hin s).mpr ⟨hsame, h⟩)
  · intro log
    -- A prefree segment is closed, so no log loses its own.
    refine ⟨(hin _).mpr ⟨?_, (ha.heads log).used⟩, (ha.heads log).next_le, (ha.heads log).dead⟩
    exact isOpen_eq_false_iff.mp hclosed log
  · intro s c
    show dirty.contains c s = true ↔ ({ a with dirty, free } : Area).isUsed s = true ∧
      a.isOpen s = false ∧ (a.table.record s).FiledUnder a.geometry.segmentBlocks c
    rw [hlists, hin, ha.classified s c]
    by_cases hsame : s = seg
    · -- The segment was filed as prefree alone.
      rw [hsame]
      cases c <;> simp [Segment.FiledUnder, show (a.table.record seg).live = 0 from hlive]
    · simp [hsame]
  · intro sec h
    exact ha.staged_live sec (by rw [← hstaged]; exact h)
  · intro sec h
    exact ha.staged_closed sec (by rw [← hstaged]; exact h)

/-- Releasing a list of prefree segments takes them out of use and keeps the area sound. -/
theorem Sound.releaseAll : ∀ {segs : List ℕ} {a : Area}, a.Sound → segs.Nodup →
    (∀ seg ∈ segs, a.dirty.contains .prefree seg = true) →
    ∃ a', a.releaseAll segs = .ok a' ∧ a'.Sound ∧ a.Released segs a'
  | [], a, ha, _, _ => ⟨a, rfl, ha, Released.nil a⟩
  | seg :: segs, a, ha, hnodup, hprefree => by
    obtain ⟨hnotin, hnodup⟩ := List.nodup_cons.mp hnodup
    obtain ⟨a₁, hfirst, ha₁, hreleased⟩ := ha.releaseSegment (hprefree seg List.mem_cons_self)
    -- The other segments are still prefree when the first one has been released.
    obtain ⟨a', hrest, ha', hreleased'⟩ := ha₁.releaseAll hnodup fun s hs => by
      rw [hreleased.lists, List.mem_singleton]
      refine ⟨hprefree s (List.mem_cons_of_mem _ hs), ?_⟩
      rintro ⟨-, rfl⟩
      exact hnotin hs
    refine ⟨a', ?_, ha', hreleased.cons hreleased'⟩
    unfold Area.releaseAll
    rw [hfirst, Guarded.ok_bind, hrest]

/-- What a checkpoint does: the prefree segments go out of use, and the live counts are noted. -/
structure Checkpointed (a : Area) (n : ℕ) (a' : Area) : Prop where
  /-- The area is sound. -/
  sound : a'.Sound
  /-- The geometry is the same. -/
  geometry : a'.geometry = a.geometry
  /-- The records have noted their live counts. -/
  table : a'.table = a.table.save
  /-- The logs stand where they stood. -/
  heads : a'.heads = a.heads
  /-- The section under collection is the same. -/
  claimed : a'.claimed = a.claimed
  /-- The same sections are staged. -/
  staged : a'.dirty.staged = a.dirty.staged
  /-- No segment is prefree, and nothing else changes on the lists. -/
  lists : ∀ c s, a'.dirty.contains c s = true ↔ a.dirty.contains c s = true ∧ c ≠ .prefree
  /-- Segments that were prefree are out of use, and every other as before. -/
  used : ∀ s, a'.isUsed s = true ↔ a.isUsed s = true ∧ a.dirty.contains .prefree s = false
  /-- The number told is that of the prefree segments. -/
  count : n = a.dirty.prefree.map.toFinset.card

/-- A checkpoint never traps. It keeps an area sound and takes exactly the prefree segments out of
use. -/
theorem Sound.checkpoint (ha : a.Sound) :
    ∃ n a', a.checkpoint = .ok (n, a') ∧ a.Checkpointed n a' := by
  have hmap : a.dirty.prefree.map.WellFormed := (ha.dirty.roster .prefree).map
  have hmem : ∀ s, s ∈ a.dirty.prefree.map.toList ↔ a.dirty.contains .prefree s = true :=
    Bitmap.mem_toList hmap
  have hrecord := SegmentTable.record_save a.table
  -- Noting the live counts changes nothing that soundness speaks of.
  have hsaved : ({ a with table := a.table.save } : Area).Sound :=
    ha.of_records rfl rfl rfl (SegmentTable.wellFormed_save ha.table) (fun s => (hrecord s).1)
      (fun s => (hrecord s).2.1) (fun s => (hrecord s).2.2) ha.dirty (fun _ _ => rfl)
      fun _ => Or.inl
  obtain ⟨a', hrelease, ha', h⟩ := hsaved.releaseAll (Bitmap.toList_nodup hmap) fun s hs =>
    (hmem s).mp hs
  refine ⟨a.dirty.prefree.map.toList.length, a', ?_, ⟨ha', h.geometry, h.table, h.heads,
    h.claimed, h.staged, ?_, ?_, ?_⟩⟩
  · unfold Area.checkpoint
    dsimp only
    rw [hrelease]
    rfl
  · intro c s
    rw [h.lists, hmem]
    refine and_congr_right fun hlisted => ?_
    constructor
    · rintro hkept rfl
      exact hkept ⟨rfl, hlisted⟩
    · exact fun hc h => hc h.1
  · intro s
    rw [h.used, hmem, Bool.not_eq_true]
    rfl
  · show a.dirty.prefree.map.toList.length = _
    rw [← Bitmap.toList_toFinset hmap, List.toFinset_card_of_nodup (Bitmap.toList_nodup hmap)]

/-- A checkpoint keeps every block live or dead. -/
theorem Checkpointed.liveAt_iff {n : ℕ} (h : a.Checkpointed n a') {x : Address} :
    a'.LiveAt x ↔ a.LiveAt x := by
  unfold LiveAt Segment.isLive
  rw [h.geometry, h.table]
  simp only [(SegmentTable.record_save a.table _).1]

/-- A block that is no longer spent after a checkpoint was dead before it. -/
theorem Checkpointed.dead_of_not_spent {n : ℕ} (h : a.Checkpointed n a') {x : Address}
    (hfreed : ¬a'.Spent x) : ¬a.LiveAt x :=
  fun hlive => hfreed (h.sound.spent_of_live (h.liveAt_iff.mpr hlive))

end Reclaim.Area
