import Mathlib.Algebra.Order.BigOperators.Group.Finset
import Reclaim.Area.Table
import Reclaim.Proofs.Bitmap
import Reclaim.Proofs.Geometry
import Reclaim.Proofs.Guarded

/-!
# Live blocks in the segment table

A well-formed table has a record for each segment, each record counts the members of its map, and
the table counts the blocks of all records. `fill_spec` and `drop_spec` say that a write or a drop
changes one block of one record and keeps the counts; every other record stays as it is.
`sectionLive_eq` reads off the live blocks of a section, which are none exactly when none of its
segments has one (`sectionTotal_eq_zero_iff`).
-/

namespace Reclaim

namespace Segment

/-- A record of a segment of `blocks` blocks that counts its live ones. -/
structure WellFormed (s : Segment) (blocks : ℕ) : Prop where
  /-- The map is well formed. -/
  map : s.map.WellFormed
  /-- The map has the offsets of the segment. -/
  map_size : s.map.size = blocks
  /-- The count is the number of live blocks. -/
  live_eq : s.live = s.map.toFinset.card

variable {s s' : Segment} {blocks off now : ℕ} {changed : Bool}

/-- A write changes nothing, or it counts a block more and pulls the age towards its time. -/
theorem fill_cases (h : s.fill off now = .ok (changed, s')) :
    (changed = false ∧ s' = s) ∨ changed = true ∧ ∃ map, s' = { s with
      map, live := s.live + 1, mtime := (s.mtime * s.live + now) / (s.live + 1) } := by
  unfold fill at h
  obtain ⟨⟨present, map⟩, -, h⟩ := Guarded.bind_eq_ok.mp h
  dsimp only at h
  split_ifs at h
  · cases h
    exact Or.inl ⟨rfl, rfl⟩
  · obtain ⟨total, hfit, h⟩ := Guarded.bind_eq_ok.mp h
    obtain ⟨-, rfl⟩ := Guarded.fit64_eq_ok.mp hfit
    cases h
    exact Or.inr ⟨rfl, map, rfl⟩

/-- A drop changes nothing, or it counts a block less. -/
theorem drop_cases (h : s.drop off = .ok (changed, s')) :
    (changed = false ∧ s' = s) ∨
      changed = true ∧ ∃ map, s' = { s with map, live := s.live - 1 } := by
  unfold drop at h
  obtain ⟨⟨present, map⟩, -, h⟩ := Guarded.bind_eq_ok.mp h
  dsimp only at h
  split_ifs at h
  · obtain ⟨live, hminus, h⟩ := Guarded.bind_eq_ok.mp h
    obtain ⟨-, rfl⟩ := Guarded.minus_eq_ok.mp hminus
    cases h
    exact Or.inr ⟨rfl, map, rfl⟩
  · cases h
    exact Or.inl ⟨rfl, rfl⟩

/-- A segment without a live block counts none. -/
theorem wellFormed_empty (blocks : ℕ) : (empty blocks).WellFormed blocks where
  map := Bitmap.wellFormed_empty blocks
  map_size := rfl
  live_eq := by
    have hset : (empty blocks).map.toFinset = ∅ := by
      ext i
      simp [empty]
    rw [hset]
    rfl

/-- Live blocks have offsets of the segment. -/
theorem lt_of_isLive (hs : s.WellFormed blocks) (h : s.isLive off = true) : off < blocks := by
  rw [← hs.map_size]
  exact Bitmap.lt_size_of_contains h

/-- A segment counts at most its blocks. -/
theorem live_le (hs : s.WellFormed blocks) : s.live ≤ blocks := by
  rw [hs.live_eq, ← hs.map_size]
  calc s.map.toFinset.card ≤ (Finset.range s.map.size).card := Finset.card_filter_le _ _
    _ = s.map.size := Finset.card_range _

/-- A segment counts no block exactly when no block is live. -/
theorem live_eq_zero_iff (hs : s.WellFormed blocks) :
    s.live = 0 ↔ ∀ off, s.isLive off = false := by
  rw [hs.live_eq, Finset.card_eq_zero, Finset.eq_empty_iff_forall_notMem]
  simp [isLive]

/-- Writing a block that is live changes nothing. -/
theorem fill_of_isLive (hs : s.WellFormed blocks) (hlive : s.isLive off = true) (now : ℕ) :
    s.fill off now = .ok (false, s) := by
  have hcontains : s.map.contains off = true := hlive
  obtain ⟨map, hins, -⟩ := Bitmap.insert_spec hs.map (Bitmap.lt_size_of_contains hcontains)
  unfold fill
  rw [hins, hcontains]
  rfl

/-- Writing a dead block makes it live, unless the sum behind the average age is too wide. -/
theorem fill_spec (hs : s.WellFormed blocks) (hoff : off < blocks) (hdead : s.isLive off = false)
    (now : ℕ) :
    s.fill off now = .error .width ∨
      ∃ s', s.fill off now = .ok (true, s') ∧ s'.WellFormed blocks ∧ s'.live = s.live + 1 ∧
        s'.log = s.log ∧ ∀ j, s'.isLive j = (decide (j = off) || s.isLive j) := by
  have hcontains : s.map.contains off = false := hdead
  obtain ⟨map, hins, hmap, hsize, hmem⟩ := Bitmap.insert_spec hs.map
    (show off < s.map.size by rw [hs.map_size]; exact hoff)
  have hset : map.toFinset = insert off s.map.toFinset := by
    ext j
    simp [hmem]
  unfold fill
  rw [hins, hcontains]
  rcases Guarded.fit64_cases (s.mtime * s.live + now) with hfit | hfit
  · right
    -- The age becomes the average over the live blocks, the new one included.
    refine ⟨{ s with map, mtime := (s.mtime * s.live + now) / (s.live + 1), live := s.live + 1 }, ?_,
      ⟨hmap, by rw [hsize, hs.map_size], ?_⟩, rfl, rfl, hmem⟩
    · simp [hfit]
    · show s.live + 1 = map.toFinset.card
      rw [hset, Finset.card_insert_of_notMem (by simp [hcontains]), hs.live_eq]
  · left
    simp [hfit]

/-- Dropping a block makes it dead and tells whether it was live. -/
theorem drop_spec (hs : s.WellFormed blocks) (hoff : off < blocks) :
    ∃ s', s.drop off = .ok (s.isLive off, s') ∧ s'.WellFormed blocks ∧
      s'.live = s.live - (if s.isLive off then 1 else 0) ∧ s'.log = s.log ∧
      ∀ j, s'.isLive j = (!decide (j = off) && s.isLive j) := by
  obtain ⟨map, hera, hmap, hsize, hmem⟩ := Bitmap.erase_spec hs.map
    (show off < s.map.size by rw [hs.map_size]; exact hoff)
  unfold drop
  rw [hera]
  cases hlive : s.isLive off with
  | false =>
    have hcontains : s.map.contains off = false := hlive
    refine ⟨s, by simp [hcontains], hs, by simp, rfl, ?_⟩
    intro j
    by_cases hj : j = off
    · rw [hj, hlive]
      simp
    · simp [hj]
  | true =>
    have hcontains : s.map.contains off = true := hlive
    have hset : map.toFinset = s.map.toFinset.erase off := by
      ext j
      simp [hmem]
    -- The count can be taken down, since the block that dies is counted.
    have hcard : map.toFinset.card = s.live - 1 := by
      rw [hset, Finset.card_erase_of_mem (by simpa using hcontains), hs.live_eq]
    have hpos : 1 ≤ s.live := by
      rw [hs.live_eq]
      exact Finset.card_pos.mpr ⟨off, by simpa using hcontains⟩
    refine ⟨{ s with map, live := s.live - 1 }, ?_, ⟨hmap, by rw [hsize, hs.map_size], hcard.symm⟩,
      by simp, rfl, hmem⟩
    simp [hcontains, Guarded.minus_eq hpos]

end Segment

namespace SegmentTable

/-- The record of a segment; a segment that the table does not have is empty. -/
def record (t : SegmentTable) (seg : ℕ) : Segment := t.records[seg]?.getD (Segment.empty 0)

/-- The live blocks in a section. -/
def sectionTotal (t : SegmentTable) (g : Geometry) (sec : ℕ) : ℕ :=
  ((g.sectionSegments sec).map fun seg => (t.record seg).live).sum

/-- A table with a record for each segment and a true count of the live blocks. -/
structure WellFormed (t : SegmentTable) (g : Geometry) : Prop where
  /-- There is a record for each segment. -/
  size : t.records.size = g.segments
  /-- Each record counts its live blocks. -/
  records : ∀ seg < g.segments, (t.record seg).WellFormed g.segmentBlocks
  /-- The table counts the live blocks of all records. -/
  live_eq : t.live = ∑ seg ∈ Finset.range g.segments, (t.record seg).live

variable {t : SegmentTable} {g : Geometry} {seg : ℕ}

/-! ## Single records -/

/-- The record of a segment that the table has is found. -/
theorem get_eq (h : seg < t.records.size) : t.get seg = .ok (t.record seg) := by
  unfold get record
  rw [Guarded.fetch_eq h, Array.getElem?_eq_getElem h, Option.getD_some]

/-- A record that is found is the record of its segment, which the table has. -/
theorem get_eq_ok {s : Segment} : t.get seg = .ok s ↔ seg < t.records.size ∧ t.record seg = s := by
  unfold get record
  rw [Guarded.fetch_eq_ok]
  rcases Nat.lt_or_ge seg t.records.size with h | h
  · simp [h]
  · simp [Nat.not_lt.mpr h]

/-- Replacing a record that the table has changes that record alone. -/
theorem record_put (h : seg < t.records.size) (s : Segment) (k : ℕ) :
    (t.put seg s).record k = if k = seg then s else t.record k := by
  unfold put record
  dsimp only
  rw [Array.getElem?_setIfInBounds]
  by_cases hk : k = seg
  · rw [if_pos hk.symm, if_pos h, if_pos hk, Option.getD_some]
  · rw [if_neg fun h' => hk h'.symm, if_neg hk]

/-- Replacing a record keeps the length of the table. -/
@[simp]
theorem size_put (t : SegmentTable) (seg : ℕ) (s : Segment) :
    (t.put seg s).records.size = t.records.size := by
  simp [put]

/-- Well-formed tables with the same records and the same age bounds are the same. -/
theorem WellFormed.eq_of_record {t' : SegmentTable}
    (ht : t.WellFormed g) (ht' : t'.WellFormed g) (h : ∀ s, t'.record s = t.record s)
    (holdest : t'.oldest = t.oldest) (hnewest : t'.newest = t.newest) : t' = t := by
  have hrecords : t'.records = t.records := by
    refine Array.ext (ht'.size.trans ht.size.symm) fun s hs' hs => ?_
    have hrecord := h s
    unfold record at hrecord
    rw [Array.getElem?_eq_getElem hs, Array.getElem?_eq_getElem hs'] at hrecord
    exact hrecord
  have hlive : t'.live = t.live := by
    rw [ht'.live_eq, ht.live_eq]
    exact Finset.sum_congr rfl fun s _ => by rw [h]
  cases t
  cases t'
  cases hrecords
  cases hlive
  cases holdest
  cases hnewest
  rfl

/-- Changing a record that the table has. -/
theorem update_eq (h : seg < t.records.size) (f : Segment → Segment) :
    t.update seg f = .ok (t.put seg (f (t.record seg))) := by
  unfold update
  rw [get_eq h]
  rfl

/-- A record that was changed is one that the table has. -/
theorem update_eq_ok {t' : SegmentTable} {f : Segment → Segment} :
    t.update seg f = .ok t' ↔ seg < t.records.size ∧ t.put seg (f (t.record seg)) = t' := by
  constructor
  · intro h
    obtain ⟨s, hget, h⟩ := Guarded.bind_eq_ok.mp h
    obtain ⟨hlt, rfl⟩ := get_eq_ok.mp hget
    cases h
    exact ⟨hlt, rfl⟩
  · rintro ⟨hlt, rfl⟩
    exact update_eq hlt f

/-- The empty table is well formed. -/
theorem wellFormed_empty (g : Geometry) : (empty g).WellFormed g := by
  have hrecord : ∀ seg < g.segments, (empty g).record seg = Segment.empty g.segmentBlocks := by
    intro seg hseg
    simp [record, empty, hseg]
  refine ⟨by simp [empty], ?_, ?_⟩
  · intro seg hseg
    rw [hrecord seg hseg]
    exact Segment.wellFormed_empty _
  · symm
    apply Finset.sum_eq_zero
    intro seg hseg
    rw [hrecord seg (Finset.mem_range.mp hseg)]
    rfl

/-- A record that keeps its count keeps the counts of the table. -/
theorem wellFormed_put (ht : t.WellFormed g) (hseg : seg < g.segments) {s : Segment}
    (hs : s.WellFormed g.segmentBlocks) {n : ℕ}
    (hn : n + (t.record seg).live = t.live + s.live) :
    ({ t.put seg s with live := n } : SegmentTable).WellFormed g := by
  have hlt : seg < t.records.size := by rw [ht.size]; exact hseg
  have hrecord : ∀ k, ({ t.put seg s with live := n } : SegmentTable).record k =
      if k = seg then s else t.record k := record_put hlt s
  refine ⟨by simp [ht.size], ?_, ?_⟩
  · intro k hk
    rw [hrecord]
    split_ifs
    · exact hs
    · exact ht.records k hk
  · show n = _
    have hmem := Finset.mem_range.mpr hseg
    -- The sum over the other records is the same, and the hypothesis accounts for this one.
    have hrest : ∑ k ∈ (Finset.range g.segments).erase seg,
        (({ t.put seg s with live := n } : SegmentTable).record k).live =
        ∑ k ∈ (Finset.range g.segments).erase seg, (t.record k).live := by
      apply Finset.sum_congr rfl
      intro k hk
      rw [hrecord, if_neg (Finset.ne_of_mem_erase hk)]
    rw [← Finset.add_sum_erase _ _ hmem, hrest, hrecord, if_pos rfl]
    have htotal := ht.live_eq
    rw [← Finset.add_sum_erase _ _ hmem] at htotal
    omega

/-- Replacing a record by one with the same live blocks changes no block and no other log. Filing a
segment under another log and overriding its age are of this form. -/
theorem replace_spec (ht : t.WellFormed g) (hseg : seg < g.segments) {s : Segment}
    (hmap : s.map = (t.record seg).map) (hlive : s.live = (t.record seg).live) :
    (t.put seg s).WellFormed g ∧ ∀ k, ((t.put seg s).record k).map = (t.record k).map ∧
      ((t.put seg s).record k).live = (t.record k).live ∧
      ((t.put seg s).record k).log = if k = seg then s.log else (t.record k).log := by
  have hold := ht.records seg hseg
  have hlt : seg < t.records.size := by rw [ht.size]; exact hseg
  have hs : s.WellFormed g.segmentBlocks :=
    ⟨by rw [hmap]; exact hold.map, by rw [hmap, hold.map_size], by rw [hmap, hlive, hold.live_eq]⟩
  refine ⟨wellFormed_put ht hseg hs (n := t.live) (by rw [hlive]), fun k => ?_⟩
  rw [record_put hlt]
  split_ifs with hk
  · rw [hk]
    exact ⟨hmap, hlive, rfl⟩
  · exact ⟨rfl, rfl, rfl⟩

/-- Tables with the same list of records have the same record of each segment. -/
theorem record_of_records {t t' : SegmentTable} (h : t'.records = t.records) :
    t'.record = t.record := by
  unfold record
  rw [h]

/-- Ages do not decide whether a table is well formed. -/
theorem wellFormed_of_records (ht : t.WellFormed g) {t' : SegmentTable}
    (hrecords : t'.records = t.records) (hlive : t'.live = t.live) : t'.WellFormed g := by
  have hrecord := record_of_records hrecords
  refine ⟨by rw [hrecords, ht.size], ?_, ?_⟩
  · rw [hrecord]
    exact ht.records
  · rw [hrecord, hlive]
    exact ht.live_eq

/-! ## Writing and dropping blocks -/

/-- Writing a dead block of a segment makes it live, unless the sum behind the average age of the
segment is too wide. -/
theorem fill_spec (ht : t.WellFormed g) (hseg : seg < g.segments) {off : ℕ}
    (hoff : off < g.segmentBlocks) (hdead : (t.record seg).isLive off = false) (now : ℕ) :
    t.fill seg off now = .error .width ∨
      ∃ t' s, t.fill seg off now = .ok (true, t') ∧ t'.WellFormed g ∧
        (∀ k, t'.record k = if k = seg then s else t.record k) ∧
        s.live = (t.record seg).live + 1 ∧ s.log = (t.record seg).log ∧
        ∀ j, s.isLive j = (decide (j = off) || (t.record seg).isLive j) := by
  have hlt : seg < t.records.size := by rw [ht.size]; exact hseg
  unfold fill
  rw [get_eq hlt]
  rcases Segment.fill_spec (ht.records seg hseg) hoff hdead now with
    hfill | ⟨s, hfill, hs, hlive, hlog, hmem⟩
  · left
    simp [hfill]
  · right
    refine ⟨{ t.put seg s with live := t.live + 1, newest := max t.newest now }, s, ?_, ?_,
      record_put hlt s, hlive, hlog, hmem⟩
    · simp [hfill]
    · have hput := wellFormed_put ht hseg hs (n := t.live + 1) (by omega)
      exact ⟨hput.size, hput.records, hput.live_eq⟩

/-- A table in which a block of a segment is dead and everything else is as before. -/
structure Dropped (t : SegmentTable) (g : Geometry) (seg off : ℕ) (t' : SegmentTable) : Prop where
  /-- The table is well formed. -/
  wellFormed : t'.WellFormed g
  /-- The other records are the same. -/
  others : ∀ k, k ≠ seg → t'.record k = t.record k
  /-- The segment is filed under the same log. -/
  log : (t'.record seg).log = (t.record seg).log
  /-- The other blocks of the segment live on. -/
  isLive : ∀ j, (t'.record seg).isLive j = (!decide (j = off) && (t.record seg).isLive j)

/-- Dropping a block of a segment makes it dead and tells whether it was live. -/
theorem drop_spec (ht : t.WellFormed g) (hseg : seg < g.segments) {off : ℕ}
    (hoff : off < g.segmentBlocks) :
    ∃ t', t.drop seg off = .ok ((t.record seg).isLive off, t') ∧ t.Dropped g seg off t' := by
  have hlt : seg < t.records.size := by rw [ht.size]; exact hseg
  obtain ⟨s, hdrop, hs, hlive, hlog, hmem⟩ := Segment.drop_spec (ht.records seg hseg) hoff
  unfold drop
  rw [get_eq hlt, Guarded.ok_bind, hdrop, Guarded.ok_bind]
  dsimp only
  cases hwas : (t.record seg).isLive off with
  | false =>
    -- Nothing was there to be dropped, and the table is left alone.
    refine ⟨t, by simp, ht, fun _ _ => rfl, rfl, fun j => ?_⟩
    by_cases hj : j = off
    · rw [hj, hwas]
      simp
    · simp [hj]
  | true =>
    rw [hwas] at hlive
    -- The table counts the block that dies, since the record does.
    have hcount : 1 ≤ (t.record seg).live := by
      rcases Nat.eq_zero_or_pos (t.record seg).live with h | h
      · rw [(Segment.live_eq_zero_iff (ht.records seg hseg)).mp h off] at hwas
        exact absurd hwas Bool.false_ne_true
      · exact h
    have htotal : 1 ≤ t.live := by
      rw [ht.live_eq]
      exact le_trans hcount (Finset.single_le_sum (f := fun k => (t.record k).live)
        (fun _ _ => Nat.zero_le _) (Finset.mem_range.mpr hseg))
    have hrecord : ∀ k, ({ t.put seg s with live := t.live - 1 } : SegmentTable).record k =
        if k = seg then s else t.record k := record_put hlt s
    refine ⟨{ t.put seg s with live := t.live - 1 }, by simp [Guarded.minus_eq htotal], ?_,
      fun k hk => ?_, ?_, fun j => ?_⟩
    · simp only [if_true] at hlive
      exact wellFormed_put ht hseg hs (by omega)
    · rw [hrecord, if_neg hk]
    · rw [hrecord, if_pos rfl, hlog]
    · rw [hrecord, if_pos rfl, hmem]

namespace Dropped

variable {t' : SegmentTable} {off : ℕ}

/-- Every segment is filed under the same log. -/
theorem log_eq (h : t.Dropped g seg off t') (k : ℕ) : (t'.record k).log = (t.record k).log := by
  by_cases hk : k = seg
  · rw [hk, h.log]
  · rw [h.others k hk]

/-- A block is live when it was live and is not the one that was dropped. -/
theorem isLive_iff (h : t.Dropped g seg off t') (k j : ℕ) :
    (t'.record k).isLive j = true ↔ (t.record k).isLive j = true ∧ ¬(k = seg ∧ j = off) := by
  by_cases hk : k = seg
  · subst hk
    rw [h.isLive]
    simp [and_comm]
  · rw [h.others k hk]
    simp [hk]

/-- What was dead is dead. -/
theorem dead (h : t.Dropped g seg off t') {k j : ℕ} (hdead : (t.record k).isLive j = false) :
    (t'.record k).isLive j = false := by
  rw [← Bool.not_eq_true, h.isLive_iff, hdead]
  simp

end Dropped

/-- A checkpoint keeps the live blocks and the logs of the records. -/
theorem record_save (t : SegmentTable) (seg : ℕ) :
    (t.save.record seg).map = (t.record seg).map ∧ (t.save.record seg).live = (t.record seg).live ∧
      (t.save.record seg).log = (t.record seg).log := by
  unfold save record
  dsimp only
  rw [Array.getElem?_map]
  cases t.records[seg]? with
  | none => exact ⟨rfl, rfl, rfl⟩
  | some s => exact ⟨rfl, rfl, rfl⟩

/-- A checkpoint keeps the table well formed. -/
theorem wellFormed_save (ht : t.WellFormed g) : t.save.WellFormed g := by
  refine ⟨by simp [save, ht.size], ?_, ?_⟩
  · intro k hk
    obtain ⟨hmap, hlive, -⟩ := record_save t k
    obtain ⟨h, hsize, hcount⟩ := ht.records k hk
    exact ⟨by rw [hmap]; exact h, by rw [hmap, hsize], by rw [hmap, hlive, hcount]⟩
  · show t.live = _
    rw [ht.live_eq]
    exact Finset.sum_congr rfl fun k _ => (record_save t k).2.1.symm

/-! ## Sections -/

/-- The live blocks of a list of segments of the table. -/
theorem liveIn_eq : ∀ {segs : List ℕ}, (∀ seg ∈ segs, seg < t.records.size) →
    t.liveIn segs = .ok (segs.map fun seg => (t.record seg).live).sum
  | [], _ => rfl
  | seg :: segs, h => by
    unfold liveIn
    rw [get_eq (h seg List.mem_cons_self), Guarded.ok_bind,
      liveIn_eq fun k hk => h k (List.mem_cons_of_mem _ hk)]
    rfl

/-- The live blocks in the section of a segment of the area. -/
theorem sectionLive_eq (hg : g.Valid) (hsize : t.records.size = g.segments)
    (hseg : seg < g.segments) :
    t.sectionLive g seg = .ok (t.sectionTotal g (g.sectionOf seg)) := by
  unfold sectionLive sectionTotal
  split_ifs with hone
  · have hsec : g.sectionSegments (g.sectionOf seg) = [seg] := by
      unfold Geometry.sectionSegments Geometry.firstSegment Geometry.sectionOf
      rw [hone]
      simp
    rw [get_eq (by omega), hsec]
    simp
  · apply liveIn_eq
    intro k hk
    have hk := (Geometry.mem_sectionSegments hg).mp hk
    have := Geometry.lt_segments_of_sectionOf hg (Geometry.sectionOf_lt hg hseg) hk
    omega

/-- The live blocks of a section depend on the counts of its segments alone. -/
theorem sectionTotal_congr (hg : g.Valid) {t' : SegmentTable} {sec : ℕ}
    (h : ∀ seg, g.sectionOf seg = sec → (t'.record seg).live = (t.record seg).live) :
    t'.sectionTotal g sec = t.sectionTotal g sec := by
  unfold sectionTotal
  congr 1
  apply List.map_congr_left
  intro seg hseg
  exact h seg ((Geometry.mem_sectionSegments hg).mp hseg)

/-- A section has no live block exactly when none of its segments has one. -/
theorem sectionTotal_eq_zero_iff (hg : g.Valid) {sec : ℕ} :
    t.sectionTotal g sec = 0 ↔ ∀ seg, g.sectionOf seg = sec → (t.record seg).live = 0 := by
  unfold sectionTotal
  rw [List.sum_eq_zero_iff_forall_eq_nat]
  simp only [List.mem_map, forall_exists_index, and_imp, Geometry.mem_sectionSegments hg]
  exact ⟨fun h seg hseg => h _ seg hseg rfl, fun h _ seg hseg hx => hx ▸ h seg hseg⟩

/-- A section without a live block has none when a block has been dropped. -/
theorem Dropped.sectionTotal_eq_zero {t' : SegmentTable} {off sec : ℕ}
    (h : t.Dropped g seg off t') (hg : g.Valid) (ht : t.WellFormed g)
    (hseg : seg < g.segments) (hzero : t.sectionTotal g sec = 0) : t'.sectionTotal g sec = 0 := by
  rw [sectionTotal_eq_zero_iff hg] at hzero ⊢
  intro k hk
  by_cases hsame : k = seg
  · subst hsame
    rw [Segment.live_eq_zero_iff (h.wellFormed.records k hseg)]
    exact fun off => h.dead ((Segment.live_eq_zero_iff (ht.records k hseg)).mp (hzero k hk) off)
  · rw [h.others k hsame]
    exact hzero k hk

end SegmentTable

end Reclaim
