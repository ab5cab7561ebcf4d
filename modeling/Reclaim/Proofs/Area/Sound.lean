import Reclaim.Area.Basic
import Reclaim.Proofs.Area.Table
import Reclaim.Proofs.Area.DirtyLists
import Reclaim.Proofs.Area.FreeMap

/-!
# Sound areas

An area is sound when its books agree with each other: the table, the dirty lists and the free maps
are well formed (`Books`), each log writes at a dead block of a segment of its own
(`HeadSound`), and a segment is on the lists that its record calls for (`Classified`): on none
while it is free or open, and otherwise on those it is filed under by its live count and its log
(`Segment.FiledUnder`). Sections are staged only while they hold a live block and no log writes
into them. `create_sound` starts with a sound area.
-/

namespace Reclaim

/-- The lists that a segment in use that no log has open belongs on. -/
def Segment.FiledUnder (s : Segment) (blocks : ℕ) : DirtyClass → Prop
  | .ofLog log => 0 < s.live ∧ s.live < blocks ∧ s.log = some log
  | .dirty => 0 < s.live ∧ s.live < blocks
  | .prefree => s.live = 0

/-- A table has only empty records past its end. -/
theorem SegmentTable.record_of_le {t : SegmentTable} {g : Geometry} (ht : t.WellFormed g) {seg : ℕ}
    (h : g.segments ≤ seg) : t.record seg = Segment.empty 0 := by
  unfold record
  rw [Array.getElem?_eq_none (by rw [ht.size]; exact h), Option.getD_none]

namespace Area

/-! ## Reading the books -/

/-- Whether a segment is in use. -/
def isUsed (a : Area) (seg : ℕ) : Bool := a.free.usedSegments.contains seg

/-- A segment is open when it is the open segment of a log. -/
theorem isOpen_iff {a : Area} {seg : ℕ} :
    a.isOpen seg = true ↔ ∃ log, (a.heads.get log).segment = seg := by
  unfold isOpen
  rw [List.any_eq_true]
  constructor
  · rintro ⟨h, hmem, hseg⟩
    obtain ⟨log, rfl⟩ := PerLog.mem_toList.mp hmem
    exact ⟨log, of_decide_eq_true hseg⟩
  · rintro ⟨log, hseg⟩
    exact ⟨_, PerLog.mem_toList.mpr ⟨log, rfl⟩, decide_eq_true hseg⟩

/-- A segment is not open when no log has it open. -/
theorem isOpen_eq_false_iff {a : Area} {seg : ℕ} :
    a.isOpen seg = false ↔ ∀ log, (a.heads.get log).segment ≠ seg := by
  rw [← Bool.not_eq_true, isOpen_iff, not_exists]

/-- A section is open when it has an open segment. -/
theorem isOpenSection_iff {a : Area} {sec : ℕ} :
    a.isOpenSection sec = true ↔ ∃ log, a.geometry.sectionOf (a.heads.get log).segment = sec := by
  unfold isOpenSection
  rw [List.any_eq_true]
  constructor
  · rintro ⟨h, hmem, hsec⟩
    obtain ⟨log, rfl⟩ := PerLog.mem_toList.mp hmem
    exact ⟨log, of_decide_eq_true hsec⟩
  · rintro ⟨log, hsec⟩
    exact ⟨_, PerLog.mem_toList.mpr ⟨log, rfl⟩, decide_eq_true hsec⟩

/-- A section is not open when no log writes into it. -/
theorem isOpenSection_eq_false_iff {a : Area} {sec : ℕ} :
    a.isOpenSection sec = false ↔
      ∀ log, a.geometry.sectionOf (a.heads.get log).segment ≠ sec := by
  rw [← Bool.not_eq_true, isOpenSection_iff, not_exists]

/-- No segment of a section that is not open is open. -/
theorem isOpen_eq_false_of_section {a : Area} {seg : ℕ}
    (h : a.isOpenSection (a.geometry.sectionOf seg) = false) : a.isOpen seg = false := by
  rw [isOpenSection_eq_false_iff] at h
  rw [isOpen_eq_false_iff]
  rintro log rfl
  exact h log rfl

/-! ## The invariant -/

/-- The records, lists and maps of an area are well formed, and live blocks are in segments in use
only. -/
structure Books (a : Area) : Prop where
  /-- The geometry is an accepted one. -/
  geometry : a.geometry.Valid
  /-- The table of records is well formed. -/
  table : a.table.WellFormed a.geometry
  /-- The dirty lists are well formed. -/
  dirty : a.dirty.WellFormed a.geometry.segments a.geometry.sections
  /-- The free maps are well formed. -/
  free : a.free.WellFormed a.geometry
  /-- A free segment has no live block. -/
  unused_dead : ∀ seg, a.isUsed seg = false → (a.table.record seg).live = 0

/-- A log writes at a block of a segment in use, and no block from there on is live. -/
structure HeadSound (a : Area) (log : Log) : Prop where
  /-- The open segment is in use. -/
  used : a.isUsed (a.heads.get log).segment = true
  /-- The next block is in the segment, or is the first behind it. -/
  next_le : (a.heads.get log).next ≤ a.geometry.segmentBlocks
  /-- No block from the next one on is live. -/
  dead : ∀ off, (a.heads.get log).next ≤ off →
    (a.table.record (a.heads.get log).segment).isLive off = false

/-- A segment is on the lists that its record calls for, and on none while it is free or open. -/
def Classified (a : Area) (seg : ℕ) : Prop :=
  ∀ c, a.dirty.contains c seg = true ↔ a.isUsed seg = true ∧ a.isOpen seg = false ∧
    (a.table.record seg).FiledUnder a.geometry.segmentBlocks c

/-- A segment stays on the right lists when nothing that decides about them changes. -/
theorem Classified.congr {a a' : Area} {seg : ℕ} (h : a.Classified seg)
    (hgeometry : a'.geometry = a.geometry)
    (hlists : ∀ c, a'.dirty.contains c seg = a.dirty.contains c seg)
    (hused : a'.isUsed seg = a.isUsed seg) (hopen : a'.isOpen seg = a.isOpen seg)
    (hlive : (a'.table.record seg).live = (a.table.record seg).live)
    (hlog : (a'.table.record seg).log = (a.table.record seg).log) : a'.Classified seg := by
  intro c
  have hfiled : (a'.table.record seg).FiledUnder a'.geometry.segmentBlocks c ↔
      (a.table.record seg).FiledUnder a.geometry.segmentBlocks c := by
    rw [hgeometry]
    cases c <;> simp [Segment.FiledUnder, hlive, hlog]
  rw [hlists, hused, hopen, hfiled]
  exact h c

/-- The books of an area agree with each other. -/
structure Sound (a : Area) : Prop extends Books a where
  /-- Each log writes into a segment in use. -/
  heads : ∀ log, a.HeadSound log
  /-- No two logs write into one section. -/
  apart : ∀ log log', a.geometry.sectionOf (a.heads.get log).segment =
    a.geometry.sectionOf (a.heads.get log').segment → log = log'
  /-- Each segment is on the lists that its record calls for. -/
  classified : ∀ seg, a.Classified seg
  /-- A staged section has a live block. -/
  staged_live : ∀ sec, a.dirty.staged.contains sec = true →
    a.table.sectionTotal a.geometry sec ≠ 0
  /-- No log writes into a staged section. -/
  staged_closed : ∀ sec, a.dirty.staged.contains sec = true → a.isOpenSection sec = false

variable {a : Area} {seg : ℕ}

/-- Segments in use are segments of the area. -/
theorem Books.lt_of_used (ha : a.Books) (h : a.isUsed seg = true) : seg < a.geometry.segments :=
  FreeMap.lt_of_used ha.free h

/-- The table has a record for each segment of the area. -/
theorem Books.lt_size (ha : a.Books) (hseg : seg < a.geometry.segments) :
    seg < a.table.records.size := by
  rw [ha.table.size]
  exact hseg

/-- A segment with a live block is in use. -/
theorem Books.used_of_live (ha : a.Books) (h : (a.table.record seg).live ≠ 0) :
    a.isUsed seg = true := by
  by_contra hused
  exact h (ha.unused_dead seg (Bool.eq_false_of_not_eq_true hused))

/-- A segment with a live block counts it. -/
theorem Books.live_ne_zero (ha : a.Books) {off : ℕ}
    (h : (a.table.record seg).isLive off = true) : (a.table.record seg).live ≠ 0 := by
  intro hzero
  rcases Nat.lt_or_ge seg a.geometry.segments with hseg | hseg
  · rw [(Segment.live_eq_zero_iff (ha.table.records seg hseg)).mp hzero off] at h
    exact Bool.false_ne_true h
  · rw [SegmentTable.record_of_le ha.table hseg] at h
    simp [Segment.isLive, Segment.empty] at h

/-- The segment of a live block is in use. -/
theorem Books.used_of_isLive (ha : a.Books) {off : ℕ}
    (h : (a.table.record seg).isLive off = true) : a.isUsed seg = true :=
  ha.used_of_live (ha.live_ne_zero h)

/-- Two logs do not have one segment open. -/
theorem Sound.log_unique (ha : a.Sound) {log log' : Log}
    (h : (a.heads.get log).segment = (a.heads.get log').segment) : log = log' :=
  ha.apart log log' (by rw [h])

/-- An open segment is on no list. -/
theorem Sound.contains_of_open (ha : a.Sound) (h : a.isOpen seg = true) (c : DirtyClass) :
    a.dirty.contains c seg = false := by
  rw [← Bool.not_eq_true, ha.classified seg c, h]
  rintro ⟨-, hopen, -⟩
  cases hopen

/-- A free segment is on no list. -/
theorem Sound.contains_of_unused (ha : a.Sound) (h : a.isUsed seg = false) (c : DirtyClass) :
    a.dirty.contains c seg = false := by
  rw [← Bool.not_eq_true, ha.classified seg c, h]
  rintro ⟨hused, -⟩
  cases hused

/-- An area stays sound when its records keep their live blocks and logs and its lists their members,
whatever happens to ages, cursors and claims. Sections that are staged must be fit for it. -/
theorem Sound.of_records {a a' : Area} (ha : a.Sound) (hgeometry : a'.geometry = a.geometry)
    (hfree : a'.free = a.free) (hheads : a'.heads = a.heads)
    (htable : a'.table.WellFormed a.geometry)
    (hmap : ∀ s, (a'.table.record s).map = (a.table.record s).map)
    (hlive : ∀ s, (a'.table.record s).live = (a.table.record s).live)
    (hlog : ∀ s, (a'.table.record s).log = (a.table.record s).log)
    (hdirty : a'.dirty.WellFormed a.geometry.segments a.geometry.sections)
    (hlists : ∀ c s, a'.dirty.contains c s = a.dirty.contains c s)
    (hstaged : ∀ sec, a'.dirty.staged.contains sec = true → a.dirty.staged.contains sec = true ∨
      a.table.sectionTotal a.geometry sec ≠ 0 ∧ a.isOpenSection sec = false) : a'.Sound := by
  have hused : ∀ s, a'.isUsed s = a.isUsed s := by
    intro s
    unfold isUsed
    rw [hfree]
  have hopen : ∀ s, a'.isOpen s = a.isOpen s := by
    intro s
    unfold isOpen
    rw [hheads]
  refine ⟨⟨?_, ?_, ?_, ?_, ?_⟩, ?_, ?_, ?_, ?_, ?_⟩
  · rw [hgeometry]
    exact ha.geometry
  · rw [hgeometry]
    exact htable
  · rw [hgeometry]
    exact hdirty
  · rw [hgeometry, hfree]
    exact ha.free
  · intro s
    rw [hused, hlive]
    exact ha.unused_dead s
  · -- The logs stand where they stood, before blocks that are dead as before.
    intro log
    obtain ⟨hin, hnext, hdead⟩ := ha.heads log
    refine ⟨?_, ?_, ?_⟩ <;> rw [hheads]
    · rw [hused]
      exact hin
    · rw [hgeometry]
      exact hnext
    · intro off hoff
      unfold Segment.isLive
      rw [hmap]
      exact hdead off hoff
  · rw [hgeometry, hheads]
    exact ha.apart
  · intro s
    exact (ha.classified s).congr hgeometry (fun c => hlists c s) (hused s) (hopen s) (hlive s)
      (hlog s)
  · -- Sections were staged before or are fit for it, and they hold as many live blocks.
    intro sec hsec
    rw [hgeometry, SegmentTable.sectionTotal_congr ha.geometry fun s _ => hlive s]
    rcases hstaged sec hsec with hwas | ⟨hfit, -⟩
    · exact ha.staged_live sec hwas
    · exact hfit
  · intro sec hsec
    unfold isOpenSection
    rw [hheads, hgeometry]
    rcases hstaged sec hsec with hwas | ⟨-, hfit⟩
    · exact ha.staged_closed sec hwas
    · exact hfit

/-! ## Live blocks -/

/-- Whether the block at an address is live. -/
def LiveAt (a : Area) (addr : Address) : Prop :=
  ∃ seg, a.geometry.segmentOf? addr = some seg ∧
    (a.table.record seg).isLive (a.geometry.offsetOf addr) = true

/-- The block at an offset of a segment is live when the record of the segment says so. -/
theorem liveAt_block (hg : a.geometry.Valid) (hseg : seg < a.geometry.segments) {off : ℕ}
    (hoff : off < a.geometry.segmentBlocks) :
    a.LiveAt (a.geometry.startBlock seg + off) ↔ (a.table.record seg).isLive off = true := by
  unfold LiveAt
  rw [Geometry.segmentOf?_block hg hseg hoff, Geometry.offsetOf_block hg hseg hoff]
  simp

/-- Live blocks are blocks of the area, with the addresses of written blocks. -/
theorem LiveAt.isAllocated {addr : Address} (h : a.LiveAt addr) : addr.isAllocated = true := by
  obtain ⟨seg, hseg, -⟩ := h
  exact Geometry.isAllocated_of_segmentOf? hseg

/-! ## Opening segments -/

/-- What opening a segment for a log does: the segment goes into use, its log is noted and the write
position moves there. No other segment goes into use, and no block becomes live or dead. -/
structure Opened (a : Area) (log : Log) (seg : ℕ) (a' : Area) : Prop where
  /-- The books are kept. -/
  books : a'.Books
  /-- The geometry is the same. -/
  geometry : a'.geometry = a.geometry
  /-- The lists are the same. -/
  dirty : a'.dirty = a.dirty
  /-- The section under collection is the same. -/
  claimed : a'.claimed = a.claimed
  /-- The log stands at the start of the segment, and every other where it was. -/
  head : ∀ l, a'.heads.get l = if l = log then ⟨seg, 0⟩ else a.heads.get l
  /-- The segment is in use, and every other as before. -/
  used : ∀ s, a'.isUsed s = true ↔ s = seg ∨ a.isUsed s = true
  /-- The same blocks are live. -/
  isLive : ∀ s off, (a'.table.record s).isLive off = (a.table.record s).isLive off
  /-- The live blocks are counted as before. -/
  live : ∀ s, (a'.table.record s).live = (a.table.record s).live
  /-- The other segments keep their logs. -/
  log : ∀ s, s ≠ seg → (a'.table.record s).log = (a.table.record s).log

/-- Opening a segment of the area does what it should. -/
theorem openSegment_spec (ha : a.Books) (log : Log) (hseg : seg < a.geometry.segments) :
    ∃ a', a.openSegment log seg = .ok a' ∧ a.Opened log seg a' := by
  obtain ⟨free, htake, hfree, hmem⟩ := FreeMap.take_spec ha.geometry ha.free hseg
  obtain ⟨htable, hrecord⟩ := SegmentTable.replace_spec ha.table hseg
    (s := { a.table.record seg with log := some log }) rfl rfl
  generalize htab : a.table.put seg { a.table.record seg with log := some log } = table
    at htable hrecord
  refine ⟨{ a with free, table, heads := a.heads.set log ⟨seg, 0⟩ }, ?_,
    ⟨⟨ha.geometry, htable, ha.dirty, hfree, ?_⟩, rfl, rfl, rfl, ?_, hmem, ?_, ?_, ?_⟩⟩
  · unfold openSegment
    rw [htake, Guarded.ok_bind, SegmentTable.update_eq (ha.lt_size hseg), Guarded.ok_bind, htab]
    rfl
  · -- What is free now was free before, so it held no live block.
    intro s hs
    show (table.record s).live = 0
    rw [(hrecord s).2.1]
    apply ha.unused_dead
    rw [← Bool.not_eq_true] at hs ⊢
    exact fun h => hs ((hmem s).mpr (Or.inr h))
  · exact fun l => PerLog.get_set a.heads log l _
  · intro s off
    show (table.record s).map.contains off = (a.table.record s).map.contains off
    rw [(hrecord s).1]
  · exact fun s => (hrecord s).2.1
  · intro s hs
    show (table.record s).log = (a.table.record s).log
    rw [(hrecord s).2.2, if_neg hs]

namespace Opened

variable {a' : Area} {log : Log}

/-- The log that opens a segment without a live block writes at its first one. -/
theorem headSound_self (h : a.Opened log seg a') (hdead : (a.table.record seg).live = 0)
    (hseg : seg < a.geometry.segments) : a'.HeadSound log := by
  have hhead : a'.heads.get log = ⟨seg, 0⟩ := by rw [h.head, if_pos rfl]
  refine ⟨?_, ?_, ?_⟩ <;> rw [hhead]
  · exact (h.used seg).mpr (Or.inl rfl)
  · exact Nat.zero_le _
  · intro off _
    refine (Segment.live_eq_zero_iff (h.books.table.records seg ?_)).mp ?_ off
    · rw [h.geometry]
      exact hseg
    · rw [h.live, hdead]

/-- The other logs write where they did. -/
theorem headSound_other (h : a.Opened log seg a') {l : Log} (hl : l ≠ log) (hhead : a.HeadSound l) :
    a'.HeadSound l := by
  have hsame : a'.heads.get l = a.heads.get l := by rw [h.head, if_neg hl]
  refine ⟨?_, ?_, ?_⟩ <;> rw [hsame]
  · exact (h.used _).mpr (Or.inr hhead.used)
  · rw [h.geometry]
    exact hhead.next_le
  · intro off hoff
    rw [h.isLive]
    exact hhead.dead off hoff

/-- The same addresses have live blocks. -/
theorem liveAt_iff (h : a.Opened log seg a') {x : Address} : a'.LiveAt x ↔ a.LiveAt x := by
  unfold LiveAt
  rw [h.geometry]
  simp only [h.isLive]

/-- A section that is not open stays so unless it is that of the segment. -/
theorem isOpenSection_eq_false (h : a.Opened log seg a') {sec : ℕ}
    (hclosed : a.isOpenSection sec = false) (hsec : a.geometry.sectionOf seg ≠ sec) :
    a'.isOpenSection sec = false := by
  rw [isOpenSection_eq_false_iff] at hclosed ⊢
  intro l
  rw [h.geometry, h.head]
  split_ifs
  · exact hsec
  · exact hclosed l

/-- Other segments than the one opened and the one left are open as before. -/
theorem isOpen_eq (h : a.Opened log seg a') {s : ℕ} (hs : s ≠ seg)
    (hleft : s ≠ (a.heads.get log).segment) : a'.isOpen s = a.isOpen s := by
  rw [Bool.eq_iff_iff, isOpen_iff, isOpen_iff]
  constructor
  · rintro ⟨l, hl⟩
    rw [h.head] at hl
    split_ifs at hl
    · exact absurd hl.symm hs
    · exact ⟨l, hl⟩
  · rintro ⟨l, hl⟩
    refine ⟨l, ?_⟩
    rw [h.head, if_neg (by rintro rfl; exact hleft hl.symm), hl]

end Opened

/-! ## The first area -/

/-- An area in which a list of logs is still without an open segment: the segments in use are the
open ones of the other logs, and nothing is listed. -/
structure Opening (a : Area) (rest : List Log) : Prop extends Books a where
  /-- The other logs write into segments in use. -/
  heads : ∀ log, log ∉ rest → a.HeadSound log
  /-- No two of the other logs write into one section. -/
  apart : ∀ log log', log ∉ rest → log' ∉ rest →
    a.geometry.sectionOf (a.heads.get log).segment =
      a.geometry.sectionOf (a.heads.get log').segment → log = log'
  /-- Segments in use are open. -/
  opened : ∀ seg, a.isUsed seg = true → ∃ log, log ∉ rest ∧ (a.heads.get log).segment = seg
  /-- No block is live. -/
  dead : ∀ seg off, (a.table.record seg).isLive off = false
  /-- No segment is on a list. -/
  lists : ∀ c seg, a.dirty.contains c seg = false
  /-- No section is staged. -/
  staged : ∀ sec, a.dirty.staged.contains sec = false

/-- Once every log has its segment the area is sound. -/
theorem Opening.sound (ha : a.Opening []) : a.Sound where
  toBooks := ha.toBooks
  heads log := ha.heads log List.not_mem_nil
  apart log log' := ha.apart log log' List.not_mem_nil List.not_mem_nil
  classified seg c := by
    constructor
    · intro h
      rw [ha.lists] at h
      cases h
    · rintro ⟨hused, hopen, -⟩
      obtain ⟨log, -, hlog⟩ := ha.opened seg hused
      exact absurd hlog (isOpen_eq_false_iff.mp hopen log)
  staged_live sec h := by
    rw [ha.staged] at h
    cases h
  staged_closed sec h := by
    rw [ha.staged] at h
    cases h

/-- Opening the first segment of a free section for the first log of the list. -/
theorem Opening.openSegment {log : Log} {rest : List Log} (ha : a.Opening (log :: rest))
    (hnodup : (log :: rest).Nodup) {sec : ℕ} (hsec : sec < a.geometry.sections)
    (hfree : a.free.usedSections.contains sec = false) :
    ∃ a', a.openSegment log (a.geometry.firstSegment sec) = .ok a' ∧ a'.Opening rest := by
  have hseg := Geometry.firstSegment_lt ha.geometry hsec
  have hsecOf := Geometry.sectionOf_firstSegment ha.geometry sec
  -- A log that has its segment writes into another section, since this one is free.
  have hother : ∀ seg, a.isUsed seg = true → a.geometry.sectionOf seg ≠ sec := by
    rintro seg hused rfl
    rw [(ha.free.section_used _).mpr ⟨seg, rfl, hused⟩] at hfree
    cases hfree
  have hunused : a.isUsed (a.geometry.firstSegment sec) = false := by
    rw [← Bool.not_eq_true]
    exact fun hused => hother _ hused hsecOf
  obtain ⟨a', hopen, h⟩ := openSegment_spec ha.toBooks log hseg
  have hlog : log ∉ rest := (List.nodup_cons.mp hnodup).1
  have hold : ∀ l, l ∉ rest → l ≠ log → l ∉ log :: rest := by
    intro l hl hne
    rw [List.mem_cons]
    rintro (h | h)
    · exact hne h
    · exact hl h
  refine ⟨a', hopen, h.books, ?_, ?_, ?_, fun s off => by rw [h.isLive, ha.dead],
    by rw [h.dirty]; exact ha.lists, by rw [h.dirty]; exact ha.staged⟩
  · intro l hl
    by_cases hne : l = log
    · rw [hne]
      exact h.headSound_self (ha.unused_dead _ hunused) hseg
    · exact h.headSound_other hne (ha.heads l (hold l hl hne))
  · -- The section that the log opens was free, so no other log writes into it.
    intro l l' hl hl' heq
    rw [h.geometry, h.head, h.head] at heq
    split_ifs at heq with hne hne' hne'
    · rw [hne, hne']
    · rw [hsecOf] at heq
      exact absurd heq.symm (hother _ (ha.heads l' (hold l' hl' hne')).used)
    · rw [hsecOf] at heq
      exact absurd heq (hother _ (ha.heads l (hold l hl hne)).used)
    · exact ha.apart l l' (hold l hl hne) (hold l' hl' hne') heq
  · intro seg hused
    rcases (h.used seg).mp hused with rfl | hused
    · exact ⟨log, hlog, by rw [h.head, if_pos rfl]⟩
    · obtain ⟨l, hl, hlseg⟩ := ha.opened seg hused
      rw [List.mem_cons, not_or] at hl
      exact ⟨l, hl.2, by rw [h.head, if_neg hl.1, hlseg]⟩

/-- Opening segments for the logs of a list, one after the other. -/
theorem Opening.openLogs : ∀ {rest : List Log} {a a' : Area} {hint : ℕ}, a.Opening rest →
    rest.Nodup → a.openLogs rest hint = .ok (.ok a') → a'.Opening []
  | [], a, a', hint, ha, _, h => by
    cases h
    exact ha
  | log :: rest, a, a', hint, ha, hnodup, h => by
    unfold Area.openLogs at h
    split at h
    · cases h
    · next sec hsec =>
      obtain ⟨hlt, hfree⟩ := FreeMap.find?_eq_some ha.geometry hsec
      obtain ⟨a₁, hopen, ha₁⟩ := ha.openSegment hnodup hlt hfree
      rw [hopen, Guarded.ok_bind] at h
      exact ha₁.openLogs (List.nodup_cons.mp hnodup).2 h

/-- In an area with nothing in use every log is still without a segment. -/
theorem opening_start {g : Geometry} (hg : g.Valid) (searchLimit : ℕ) :
    ({ geometry := g
       searchLimit
       table := SegmentTable.empty g
       dirty := DirtyLists.empty g.segments g.sections
       cursors := ⟨0, 0⟩
       claimed := none
       free := FreeMap.empty g
       heads := PerLog.const ⟨0, 0⟩
       foregroundOff := false } : Area).Opening Log.all := by
  have hempty : ∀ seg, ∃ blocks, (SegmentTable.empty g).record seg = Segment.empty blocks := by
    intro seg
    rcases Nat.lt_or_ge seg g.segments with hseg | hseg
    · exact ⟨g.segmentBlocks, by simp [SegmentTable.record, SegmentTable.empty, hseg]⟩
    · exact ⟨0, SegmentTable.record_of_le (SegmentTable.wellFormed_empty g) hseg⟩
  refine ⟨⟨hg, SegmentTable.wellFormed_empty g, DirtyLists.wellFormed_empty _ _,
    FreeMap.wellFormed_empty g, ?_⟩, ?_, ?_, ?_, ?_, ?_, ?_⟩
  · intro seg _
    obtain ⟨blocks, hrecord⟩ := hempty seg
    dsimp only
    rw [hrecord]
    rfl
  · exact fun log hlog => absurd (Log.mem_all log) hlog
  · exact fun log _ hlog => absurd (Log.mem_all log) hlog
  · intro seg hused
    simp [isUsed, FreeMap.empty] at hused
  · intro seg off
    obtain ⟨blocks, hrecord⟩ := hempty seg
    dsimp only
    rw [hrecord]
    simp [Segment.isLive, Segment.empty]
  · exact DirtyLists.contains_empty _ _
  · intro sec
    simp [DirtyLists.empty]

/-- Every log of a created area has its segment. -/
theorem opening_of_create {l : Layout} (h : create l = .ok (.ok a)) : a.Opening [] := by
  unfold create at h
  split at h
  · cases h
  · next g hgeometry =>
    obtain ⟨-, hg⟩ := Geometry.make_eq_ok_iff.mp hgeometry
    exact (opening_start hg _).openLogs (by decide) h

/-- A created area is sound. -/
theorem create_sound {l : Layout} (h : create l = .ok (.ok a)) : a.Sound :=
  (opening_of_create h).sound

/-- A created area has no live block. -/
theorem not_liveAt_of_create {l : Layout} (h : create l = .ok (.ok a)) (addr : Address) :
    ¬a.LiveAt addr := by
  rintro ⟨seg, -, hlive⟩
  rw [(opening_of_create h).dead] at hlive
  cases hlive

end Area

end Reclaim
