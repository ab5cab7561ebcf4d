import Reclaim.Area.Writing
import Reclaim.Proofs.Area.Classify

/-!
# Appending keeps an area sound

A block is written where its log stands, and a log moves on to a free segment, so what is written
was dead (`Sound.allocate`). Writing and dropping both take an area to one that has evolved from it
(`Evolves`): blocks that are spent stay spent, and a section that is in use but closed to the logs
stays closed, gains no live block and keeps the logs of its segments. Only a checkpoint frees what
is spent.
-/

namespace Reclaim.Area

variable {a a' : Area} {seg : ℕ}

/-! ## What writing and dropping keep -/

/-- Whether a block cannot be written any more while its segment is in use: its segment is in use,
and if a log has the segment open it stands behind the block. -/
def Spent (a : Area) (addr : Address) : Prop :=
  ∃ seg, a.geometry.segmentOf? addr = some seg ∧ a.isUsed seg = true ∧
    ∀ log, (a.heads.get log).segment = seg → a.geometry.offsetOf addr < (a.heads.get log).next

/-- Whether a section is in use and no log writes into it. -/
def Settled (a : Area) (sec : ℕ) : Prop :=
  a.free.usedSections.contains sec = true ∧ a.isOpenSection sec = false

/-- One area comes from another by steps that free no segment and file none under another log. -/
structure Evolves (a a' : Area) : Prop where
  /-- The geometry is the same. -/
  geometry : a'.geometry = a.geometry
  /-- Spent blocks stay spent. -/
  spent : ∀ addr, a.Spent addr → a'.Spent addr
  /-- Sections that are in use and closed stay so. -/
  settled : ∀ sec, a.Settled sec → a'.Settled sec
  /-- No block of a section that is in use and closed has become live. -/
  shrinks : ∀ addr seg, a.geometry.segmentOf? addr = some seg →
    a.Settled (a.geometry.sectionOf seg) → a'.LiveAt addr → a.LiveAt addr
  /-- The segments of a section that is in use and closed keep their logs. -/
  log : ∀ seg, a.Settled (a.geometry.sectionOf seg) →
    (a'.table.record seg).log = (a.table.record seg).log

/-- An area has evolved from itself. -/
theorem Evolves.refl (a : Area) : a.Evolves a :=
  ⟨rfl, fun _ h => h, fun _ h => h, fun _ _ _ _ h => h, fun _ _ => rfl⟩

/-- Areas evolve step by step. -/
theorem Evolves.trans {a₁ a₂ a₃ : Area} (h : a₁.Evolves a₂) (h' : a₂.Evolves a₃) :
    a₁.Evolves a₃ where
  geometry := h'.geometry.trans h.geometry
  spent addr haddr := h'.spent addr (h.spent addr haddr)
  settled sec hsec := h'.settled sec (h.settled sec hsec)
  shrinks addr seg haddr hsec hlive := by
    refine h.shrinks addr seg haddr hsec (h'.shrinks addr seg ?_ ?_ hlive)
    · rw [h.geometry, haddr]
    · rw [h.geometry]
      exact h.settled _ hsec
  log seg hsec := by
    rw [h'.log seg, h.log seg hsec]
    rw [h.geometry]
    exact h.settled _ hsec

/-- Live blocks are spent. -/
theorem Sound.spent_of_live (ha : a.Sound) {addr : Address} (h : a.LiveAt addr) : a.Spent addr := by
  obtain ⟨seg, hseg, hlive⟩ := h
  refine ⟨seg, hseg, ha.used_of_isLive hlive, ?_⟩
  rintro log rfl
  by_contra hnext
  rw [(ha.heads log).dead _ (Nat.le_of_not_lt hnext)] at hlive
  cases hlive

/-- One area comes from another without a block being written or dropped or a segment taken or
freed. -/
structure Quiet (a a' : Area) : Prop where
  /-- The geometry is the same. -/
  geometry : a'.geometry = a.geometry
  /-- The free maps are the same. -/
  free : a'.free = a.free
  /-- The logs stand where they stood. -/
  heads : a'.heads = a.heads
  /-- The same blocks are live. -/
  map : ∀ s, (a'.table.record s).map = (a.table.record s).map

/-- The same addresses have live blocks. -/
theorem Quiet.liveAt_iff (h : a.Quiet a') {x : Address} : a'.LiveAt x ↔ a.LiveAt x := by
  unfold LiveAt Segment.isLive
  rw [h.geometry]
  simp only [h.map]

/-- The same blocks are spent. -/
theorem Quiet.spent_iff (h : a.Quiet a') {x : Address} : a'.Spent x ↔ a.Spent x := by
  unfold Spent isUsed
  rw [h.geometry, h.free, h.heads]

/-- Dropping a block makes an area evolve. -/
theorem Sound.invalidate_evolves (ha : a.Sound) {addr : Address} {r : Outcome Unit}
    (h : a.invalidate addr = .ok (r, a')) :
    a'.Sound ∧ a.Evolves a' ∧ ∀ x, a'.LiveAt x ↔ a.LiveAt x ∧ x ≠ addr := by
  obtain ⟨_, table, dirty, hinv, hsound, hlive, hlog, -⟩ := ha.invalidate addr
  rw [hinv] at h
  cases h
  exact ⟨hsound, ⟨rfl, fun _ h => h, fun _ h => h, fun x _ _ _ hx => ((hlive x).mp hx).1,
    fun s _ => hlog s⟩, hlive⟩

/-! ## Moving a log on -/

/-- The segment that a log moves on to is free, and it is in the section of the log or in a free
one. -/
theorem successor?_spec (ha : a.Books) {old : ℕ} (h : a.successor? old = some seg) :
    seg < a.geometry.segments ∧ a.isUsed seg = false ∧
      (a.geometry.sectionOf seg = a.geometry.sectionOf old ∨
        a.free.usedSections.contains (a.geometry.sectionOf seg) = false) := by
  unfold successor? at h
  dsimp only at h
  split_ifs at h with hnext
  · cases h
    obtain ⟨hmod, hlt, hfree⟩ := hnext
    refine ⟨hlt, ?_, Or.inl (Geometry.sectionOf_succ hmod)⟩
    rw [Bool.not_eq_true'] at hfree
    exact hfree
  · -- The search for a section gives a free one, so its first segment is free.
    rw [Option.map_eq_some_iff] at h
    obtain ⟨sec, hfind, rfl⟩ := h
    obtain ⟨hsec, hfree⟩ := FreeMap.find?_eq_some ha.geometry hfind
    have hsecOf := Geometry.sectionOf_firstSegment ha.geometry sec
    refine ⟨Geometry.firstSegment_lt ha.geometry hsec, ?_, Or.inr (by rw [hsecOf]; exact hfree)⟩
    rw [← Bool.not_eq_true]
    intro hused
    rw [(ha.free.section_used sec).mpr ⟨_, hsecOf, hused⟩] at hfree
    cases hfree

section

variable {log : Log}

/-- Another log writes into another section than the one that a log moves on to. -/
theorem Sound.successor_apart (ha : a.Sound)
    (hnext : a.successor? (a.heads.get log).segment = some seg) {l : Log} (hl : l ≠ log) :
    a.geometry.sectionOf (a.heads.get l).segment ≠ a.geometry.sectionOf seg := by
  intro heq
  obtain ⟨-, -, hsec | hsec⟩ := successor?_spec ha.toBooks hnext
  · exact hl (ha.apart l log (heq.trans hsec))
  · rw [(ha.free.section_used _).mpr ⟨_, heq, (ha.heads l).used⟩] at hsec
    cases hsec

/-- A log does not move on into a staged section. -/
theorem Sound.successor_unstaged (ha : a.Sound)
    (hnext : a.successor? (a.heads.get log).segment = some seg) :
    a.dirty.staged.contains (a.geometry.sectionOf seg) = false := by
  rw [← Bool.not_eq_true]
  intro hstaged
  obtain ⟨-, -, hsec | hsec⟩ := successor?_spec ha.toBooks hnext
  · have hclosed := ha.staged_closed _ hstaged
    rw [isOpenSection_eq_false_iff] at hclosed
    exact hclosed log hsec.symm
  · -- A free section holds no live block.
    refine ha.staged_live _ hstaged ?_
    rw [SegmentTable.sectionTotal_eq_zero_iff ha.geometry]
    intro s hs
    refine ha.unused_dead s ?_
    rw [← Bool.not_eq_true]
    intro hused
    rw [(ha.free.section_used _).mpr ⟨s, hs, hused⟩] at hsec
    cases hsec

/-- A log does not move on into a section that is in use and closed. -/
theorem Sound.successor_unsettled (ha : a.Sound)
    (hnext : a.successor? (a.heads.get log).segment = some seg) :
    ¬a.Settled (a.geometry.sectionOf seg) := by
  rintro ⟨hused, hshut⟩
  obtain ⟨-, -, heq | hfree⟩ := successor?_spec ha.toBooks hnext
  · exact isOpenSection_eq_false_iff.mp hshut log heq.symm
  · rw [hused] at hfree
    cases hfree

/-- Opening the segment that a log moves on to leaves an area sound except at the segment that the
log leaves. -/
theorem Sound.exceptAt_opened (ha : a.Sound)
    (hnext : a.successor? (a.heads.get log).segment = some seg) (h : a.Opened log seg a') :
    a'.SoundExceptAt (a.heads.get log).segment := by
  obtain ⟨hseg, hunused, -⟩ := successor?_spec ha.toBooks hnext
  -- The segment that the log leaves is on no list, since it was open.
  have hleft : ∀ c, a'.dirty.contains c (a.heads.get log).segment = false := by
    rw [h.dirty]
    exact ha.contains_of_open (isOpen_iff.mpr ⟨log, rfl⟩)
  refine ⟨h.books, ?_, ?_, ?_, ?_, ?_, (h.used _).mpr (Or.inr (ha.heads log).used), fun _ => hleft,
    ?_, ?_⟩
  · intro l
    by_cases hl : l = log
    · rw [hl]
      exact h.headSound_self (ha.unused_dead seg hunused) hseg
    · exact h.headSound_other hl (ha.heads l)
  · -- No other log writes into the section that the log moves on to.
    intro l l' heq
    rw [h.geometry, h.head, h.head] at heq
    split_ifs at heq with hl hl' hl'
    · rw [hl, hl']
    · exact absurd heq.symm (ha.successor_apart hnext hl')
    · exact absurd heq (ha.successor_apart hnext hl)
    · exact ha.apart l l' heq
  · intro s hs
    by_cases hsame : s = seg
    · -- The segment moved to is open and was free, so it is on no list.
      rw [hsame]
      intro c
      rw [h.dirty, ha.contains_of_unused hunused]
      constructor
      · intro h
        cases h
      · rintro ⟨-, hopen, -⟩
        rw [isOpen_eq_false_iff] at hopen
        exact absurd (by rw [h.head, if_pos rfl]) (hopen log)
    · -- Other segments than these two are open and in use as before.
      refine (ha.classified s).congr h.geometry (by rw [h.dirty]; exact fun _ => rfl) ?_
        (h.isOpen_eq hsame hs) (h.live s) (h.log s hsame)
      rw [Bool.eq_iff_iff, h.used]
      simp [hsame]
  · intro sec hstaged
    right
    rw [h.geometry, SegmentTable.sectionTotal_congr ha.geometry fun s _ => h.live s]
    rw [h.dirty] at hstaged
    exact ha.staged_live sec hstaged
  · intro sec hstaged
    rw [h.dirty] at hstaged
    refine h.isOpenSection_eq_false (ha.staged_closed sec hstaged) ?_
    rintro rfl
    rw [ha.successor_unstaged hnext] at hstaged
    cases hstaged
  · intro hprefree
    rw [hleft] at hprefree
    cases hprefree
  · intro l hfiled
    rw [hleft] at hfiled
    cases hfiled

/-- Opening the segment that a log moves on to makes an area evolve. -/
theorem Sound.evolves_opened (ha : a.Sound)
    (hnext : a.successor? (a.heads.get log).segment = some seg) (h : a.Opened log seg a') :
    a.Evolves a' := by
  obtain ⟨hseg, hunused, -⟩ := successor?_spec ha.toBooks hnext
  have hunsettled := ha.successor_unsettled hnext
  refine ⟨h.geometry, ?_, ?_, ?_, ?_⟩
  · -- A spent block lies in a segment in use, and the segment that is opened was free.
    rintro addr ⟨s, hs, hused, hbehind⟩
    refine ⟨s, by rw [h.geometry]; exact hs, (h.used s).mpr (Or.inr hused), ?_⟩
    intro l
    rw [h.geometry, h.head]
    split_ifs
    · rintro rfl
      rw [hunused] at hused
      cases hused
    · exact hbehind l
  · rintro sec ⟨hused, hshut⟩
    refine ⟨?_, h.isOpenSection_eq_false hshut ?_⟩
    · obtain ⟨s, hs, hin⟩ := (ha.free.section_used sec).mp hused
      exact (h.books.free.section_used sec).mpr
        ⟨s, by rw [h.geometry, hs], (h.used s).mpr (Or.inr hin)⟩
    · rintro rfl
      exact hunsettled ⟨hused, hshut⟩
  · exact fun _ _ _ _ hlive => h.liveAt_iff.mp hlive
  · intro s hsettled
    refine h.log s ?_
    rintro rfl
    exact hunsettled hsettled

/-- A log either finds nothing free and stays, or moves on to the start of a free segment. Blocks
stay live or dead as they are. -/
theorem Sound.advance (ha : a.Sound) (log : Log) :
    a.advance log = .ok (.error .noSpace, a) ∨
      ∃ a', a.advance log = .ok (.ok (), a') ∧ a'.Sound ∧ a.Evolves a' ∧
        (∀ x, a'.LiveAt x ↔ a.LiveAt x) ∧ (a'.heads.get log).next = 0 := by
  unfold Area.advance
  dsimp only
  cases hnext : a.successor? (a.heads.get log).segment with
  | none => exact Or.inl rfl
  | some seg =>
    right
    obtain ⟨hseg, -, -⟩ := successor?_spec ha.toBooks hnext
    obtain ⟨a₁, hopen, h⟩ := openSegment_spec ha.toBooks log hseg
    -- The segment that the log leaves is classified now that it is closed.
    obtain ⟨dirty, hclassify, hsound, -⟩ := (ha.exceptAt_opened hnext h).classify
    refine ⟨{ a₁ with dirty }, ?_, hsound, ?_, fun x => h.liveAt_iff, ?_⟩
    · dsimp only
      rw [hopen, Guarded.ok_bind, hclassify]
      rfl
    · exact (ha.evolves_opened hnext h).trans
        ⟨rfl, fun _ h => h, fun _ h => h, fun _ _ _ _ h => h, fun _ _ => rfl⟩
    · show (a₁.heads.get log).next = 0
      rw [h.head, if_pos rfl]

end

/-! ## Writing blocks -/

/-- One area comes from another by writing the block at an address, which was not spent. -/
structure Wrote (a : Area) (addr : Address) (a' : Area) : Prop where
  /-- The new area is sound. -/
  sound : a'.Sound
  /-- It has evolved from the old one. -/
  evolves : a.Evolves a'
  /-- The block lies in the area. -/
  inside : ∃ seg, a.geometry.segmentOf? addr = some seg
  /-- The block was not spent. -/
  unspent : ¬a.Spent addr
  /-- The block is live now, and every other one as before. -/
  live : ∀ x, a'.LiveAt x ↔ a.LiveAt x ∨ x = addr

/-- What writing the block at the head of a log does: the block is live, and the log stands behind
it. No other block becomes live or dead, and the other segments keep their records. -/
structure Filled (a : Area) (log : Log) (a' : Area) : Prop where
  /-- The books are kept. -/
  books : a'.Books
  /-- The geometry is the same. -/
  geometry : a'.geometry = a.geometry
  /-- The lists are the same. -/
  dirty : a'.dirty = a.dirty
  /-- The free maps are the same. -/
  free : a'.free = a.free
  /-- The section under collection is the same. -/
  claimed : a'.claimed = a.claimed
  /-- The logs have the same segments open. -/
  segment : ∀ l, (a'.heads.get l).segment = (a.heads.get l).segment
  /-- The log stands one block further, and every other where it was. -/
  next : ∀ l, (a'.heads.get l).next =
    if l = log then (a.heads.get l).next + 1 else (a.heads.get l).next
  /-- The block at the head is live. -/
  isLive : ∀ s off, (a'.table.record s).isLive off = true ↔
    (a.table.record s).isLive off = true ∨
      s = (a.heads.get log).segment ∧ off = (a.heads.get log).next
  /-- Other segments than that of the log keep their records. -/
  others : ∀ s, s ≠ (a.heads.get log).segment → a'.table.record s = a.table.record s

/-- Writing the block at the head of a log that stands inside its segment and moving the head on
does what it should, unless the sum behind the average age of the segment is too wide. -/
theorem Sound.fill_spec (ha : a.Sound) {log : Log}
    (hnext : (a.heads.get log).next < a.geometry.segmentBlocks) (now : ℕ) :
    a.table.fill (a.heads.get log).segment (a.heads.get log).next now = .error .width ∨
      ∃ table, a.table.fill (a.heads.get log).segment (a.heads.get log).next now =
          .ok (true, table) ∧
        a.Filled log { a with
          table
          heads := a.heads.set log
            { a.heads.get log with next := (a.heads.get log).next + 1 } } := by
  obtain ⟨hused, -, hdead⟩ := ha.heads log
  have hseg := ha.lt_of_used hused
  rcases SegmentTable.fill_spec ha.table hseg hnext (hdead _ le_rfl) now with
    hfill | ⟨table, r, hfill, htable, hrecord, -, -, hmem⟩
  · exact Or.inl hfill
  have hothers : ∀ s, s ≠ (a.heads.get log).segment → table.record s = a.table.record s := by
    intro s hs
    rw [hrecord, if_neg hs]
  refine Or.inr ⟨table, hfill, ⟨⟨ha.geometry, htable, ha.dirty, ha.free, ?_⟩, rfl, rfl, rfl, rfl, ?_,
    ?_, ?_, hothers⟩⟩
  · intro s hs
    have hfree : a.isUsed s = false := hs
    show (table.record s).live = 0
    rw [hothers s (by rintro rfl; rw [hused] at hfree; cases hfree)]
    exact ha.unused_dead s hfree
  · intro l
    dsimp only
    rw [PerLog.get_set]
    split_ifs with hl
    · rw [hl]
    · rfl
  · intro l
    dsimp only
    rw [PerLog.get_set]
    split_ifs with hl
    · rw [hl]
    · rfl
  · intro s off
    dsimp only
    rw [hrecord]
    split_ifs with hs
    · rw [hmem, hs, Bool.or_eq_true, decide_eq_true_iff]
      tauto
    · simp [hs]

namespace Filled

variable {log : Log}

/-- The same segments are open. -/
theorem isOpen_eq (h : a.Filled log a') (s : ℕ) : a'.isOpen s = a.isOpen s := by
  rw [Bool.eq_iff_iff, isOpen_iff, isOpen_iff]
  simp only [h.segment]

/-- The same sections are open. -/
theorem isOpenSection_eq (h : a.Filled log a') (sec : ℕ) :
    a'.isOpenSection sec = a.isOpenSection sec := by
  rw [Bool.eq_iff_iff, isOpenSection_iff, isOpenSection_iff, h.geometry]
  simp only [h.segment]

/-- The same segments are in use. -/
theorem isUsed_eq (h : a.Filled log a') (s : ℕ) : a'.isUsed s = a.isUsed s := by
  unfold isUsed
  rw [h.free]

/-- Each log writes into a segment in use. -/
theorem headSound (h : a.Filled log a') (ha : a.Sound)
    (hnext : (a.heads.get log).next < a.geometry.segmentBlocks) (l : Log) : a'.HeadSound l := by
  refine ⟨?_, ?_, ?_⟩
  · rw [h.isUsed_eq, h.segment]
    exact (ha.heads l).used
  · rw [h.next, h.geometry]
    split_ifs with hl
    · rw [hl]
      exact hnext
    · exact (ha.heads l).next_le
  · intro off
    rw [h.segment, ← Bool.not_eq_true, h.isLive, h.next]
    -- Behind the block that is written the segment of the log is as dead as before.
    split_ifs with hl
    · rw [hl]
      rintro hle (hlive | ⟨-, rfl⟩)
      · rw [(ha.heads log).dead off (Nat.le_of_succ_le hle)] at hlive
        cases hlive
      · exact absurd hle (Nat.not_succ_le_self _)
    · rintro hle (hlive | ⟨hsame, -⟩)
      · rw [(ha.heads l).dead off hle] at hlive
        cases hlive
      · exact hl (ha.log_unique hsame)

/-- The area is sound: only an open segment has changed, and that is on no list. -/
theorem sound (h : a.Filled log a') (ha : a.Sound)
    (hnext : (a.heads.get log).next < a.geometry.segmentBlocks) : a'.Sound := by
  refine ⟨h.books, h.headSound ha hnext, ?_, ?_, ?_, ?_⟩
  · intro l l'
    rw [h.geometry, h.segment, h.segment]
    exact ha.apart l l'
  · intro s
    by_cases hs : s = (a.heads.get log).segment
    · -- The segment that is written into is open, so it belongs on no list.
      have hopen : a.isOpen s = true := isOpen_iff.mpr ⟨log, hs.symm⟩
      intro c
      rw [h.isOpen_eq, h.dirty, hopen, ha.contains_of_open hopen]
      simp
    · have hsame := h.others s hs
      exact (ha.classified s).congr h.geometry (by rw [h.dirty]; exact fun _ => rfl)
        (h.isUsed_eq s) (h.isOpen_eq s) (by rw [hsame]) (by rw [hsame])
  · intro sec hstaged
    rw [h.dirty] at hstaged
    rw [h.geometry, SegmentTable.sectionTotal_congr ha.geometry]
    · exact ha.staged_live sec hstaged
    · rintro s rfl
      rw [h.others s]
      rintro rfl
      have hclosed := ha.staged_closed _ hstaged
      rw [isOpenSection_eq_false_iff] at hclosed
      exact hclosed log rfl
  · intro sec hstaged
    rw [h.dirty] at hstaged
    rw [h.isOpenSection_eq]
    exact ha.staged_closed sec hstaged

/-- The area has evolved: the block lies in an open section. -/
theorem evolves (h : a.Filled log a') : a.Evolves a' := by
  refine ⟨h.geometry, ?_, ?_, ?_, ?_⟩
  · rintro addr ⟨s, hs, hused, hbehind⟩
    refine ⟨s, by rw [h.geometry]; exact hs, by rw [h.isUsed_eq]; exact hused, ?_⟩
    intro l
    rw [h.segment, h.next, h.geometry]
    intro hl
    have hlt := hbehind l hl
    split_ifs
    · exact Nat.lt_succ_of_lt hlt
    · exact hlt
  · rintro sec ⟨hused, hshut⟩
    exact ⟨by rw [h.free]; exact hused, by rw [h.isOpenSection_eq]; exact hshut⟩
  · rintro addr s hs ⟨-, hshut⟩ ⟨s', hs', hlive⟩
    rw [h.geometry] at hs' hlive
    refine ⟨s', hs', ?_⟩
    rcases (h.isLive s' _).mp hlive with hlive | ⟨rfl, -⟩
    · exact hlive
    · cases hs.symm.trans hs'
      rw [isOpenSection_eq_false_iff] at hshut
      exact absurd rfl (hshut log)
  · rintro s ⟨-, hshut⟩
    rw [h.others s]
    rintro rfl
    rw [isOpenSection_eq_false_iff] at hshut
    exact hshut log rfl

/-- The block at the head has been written. -/
theorem wrote (h : a.Filled log a') (ha : a.Sound)
    (hnext : (a.heads.get log).next < a.geometry.segmentBlocks) :
    a.Wrote (a.geometry.startBlock (a.heads.get log).segment + (a.heads.get log).next) a' := by
  have hseg := ha.lt_of_used (ha.heads log).used
  have hblock := Geometry.segmentOf?_block ha.geometry hseg hnext
  have hoff := Geometry.offsetOf_block ha.geometry hseg hnext
  refine ⟨h.sound ha hnext, h.evolves, ⟨_, hblock⟩, ?_, ?_⟩
  · -- A spent block of an open segment lies before its log, and this one does not.
    rintro ⟨s, hs, -, hbehind⟩
    cases hblock.symm.trans hs
    have hlt := hbehind log rfl
    rw [hoff] at hlt
    exact Nat.lt_irrefl _ hlt
  · intro x
    constructor
    · rintro ⟨s, hs, hlive⟩
      rw [h.geometry] at hs hlive
      rcases (h.isLive s _).mp hlive with hlive | ⟨rfl, heq⟩
      · exact Or.inl ⟨s, hs, hlive⟩
      · exact Or.inr (Geometry.eq_of_segmentOf? ha.geometry hs hblock (heq.trans hoff.symm))
    · unfold LiveAt
      rw [h.geometry]
      rintro (⟨s, hs, hlive⟩ | rfl)
      · exact ⟨s, hs, (h.isLive s _).mpr (Or.inl hlive)⟩
      · exact ⟨_, hblock, (h.isLive _ _).mpr (Or.inr ⟨rfl, hoff⟩)⟩

end Filled

/-- A block written before a log moved on is written. -/
theorem Wrote.then_advance {a₁ : Area} {addr : Address} (h : a.Wrote addr a₁) (ha' : a'.Sound)
    (hevolves : a₁.Evolves a') (hlive : ∀ x, a'.LiveAt x ↔ a₁.LiveAt x) : a.Wrote addr a' where
  sound := ha'
  evolves := h.evolves.trans hevolves
  inside := h.inside
  unspent := h.unspent
  live x := (hlive x).trans (h.live x)

/-- A block written after a log moved on is written. -/
theorem Wrote.after_advance {a₁ : Area} {addr : Address} (h : a₁.Wrote addr a')
    (hevolves : a.Evolves a₁) (hlive : ∀ x, a₁.LiveAt x ↔ a.LiveAt x) : a.Wrote addr a' where
  sound := h.sound
  evolves := hevolves.trans h.evolves
  inside := by
    rw [← hevolves.geometry]
    exact h.inside
  unspent hspent := h.unspent (hevolves.spent addr hspent)
  live x := by rw [h.live, hlive]

/-- Appending to a log that stands inside its segment writes a block, unless the sum behind the
average age of the segment is too wide. -/
theorem Sound.append (ha : a.Sound) {log : Log}
    (hnext : (a.heads.get log).next < a.geometry.segmentBlocks) (now : ℕ) :
    a.append log now = .error .width ∨
      ∃ addr a', a.append log now = .ok (addr, a') ∧ a.Wrote addr a' := by
  unfold Area.append
  dsimp only
  rcases ha.fill_spec hnext now with hfill | ⟨table, hfill, hfilled⟩
  · left
    rw [hfill]
    rfl
  · right
    rw [hfill, Guarded.ok_bind]
    have hwrote := hfilled.wrote ha hnext
    dsimp only at hwrote ⊢
    split_ifs
    · -- The segment is full now, and the log moves on if it can.
      rcases hwrote.sound.advance log with hstay | ⟨a', hmove, ha', hevolves, hlive, -⟩
      · exact ⟨_, _, by rw [hstay]; rfl, hwrote⟩
      · exact ⟨_, a', by rw [hmove]; rfl, hwrote.then_advance ha' hevolves hlive⟩
    · exact ⟨_, _, rfl, hwrote⟩

/-- An allocation in a sound area is refused and changes nothing, or writes a block, unless the sum
behind the average age of a segment is too wide. -/
theorem Sound.allocate (ha : a.Sound) (log : Option Log) (now : ℕ) :
    a.allocate log now = .error .width ∨
      (∃ status, a.allocate log now = .ok (.error status, a)) ∨
      ∃ addr a', a.allocate log now = .ok (.ok addr, a') ∧ a.Wrote addr a' := by
  unfold Area.allocate
  cases log with
  | none => exact Or.inr (Or.inl ⟨_, rfl⟩)
  | some log =>
    dsimp only
    split_ifs with hfull
    · -- A log that was left on a full segment has to move on first.
      rcases ha.advance log with hstay | ⟨a₁, hmove, ha₁, hevolves, hlive, hstart⟩
      · exact Or.inr (Or.inl ⟨_, by rw [hstay]; rfl⟩)
      · have hnext : (a₁.heads.get log).next < a₁.geometry.segmentBlocks := by
          rw [hstart]
          exact Geometry.segmentBlocks_pos ha₁.geometry
        rw [hmove, Guarded.ok_bind]
        dsimp only
        rcases ha₁.append hnext now with happend | ⟨addr, a', happend, hwrote⟩
        · left
          rw [happend]
          rfl
        · refine Or.inr (Or.inr ⟨addr, a', ?_, hwrote.after_advance hevolves hlive⟩)
          rw [happend]
          rfl
    · rcases ha.append (Nat.lt_of_not_le hfull) now with happend | ⟨addr, a', happend, hwrote⟩
      · left
        rw [happend]
        rfl
      · exact Or.inr (Or.inr ⟨addr, a', by rw [happend]; rfl, hwrote⟩)

/-! ## Writing and dropping in a row -/

/-- One area comes from another by allocations and invalidations. -/
inductive Written (a : Area) : Area → Prop
  /-- Nothing has been done. -/
  | refl : Written a a
  /-- A block has been allocated, or the allocation refused. -/
  | allocate {a₁ a' : Area} {log : Option Log} {now : ℕ} {r : Outcome Address}
      (prior : Written a a₁) (last : a₁.allocate log now = .ok (r, a')) : Written a a'
  /-- A block has been dropped, or the drop refused. -/
  | invalidate {a₁ a' : Area} {addr : Address} {r : Outcome Unit} (prior : Written a a₁)
      (last : a₁.invalidate addr = .ok (r, a')) : Written a a'

/-- Allocations and invalidations keep an area sound and make it evolve. -/
theorem Written.evolves (h : a.Written a') (ha : a.Sound) : a'.Sound ∧ a.Evolves a' := by
  induction h with
  | refl => exact ⟨ha, .refl a⟩
  | @allocate a₁ a' log now r prior last ih =>
    obtain ⟨hsound, hevolves⟩ := ih
    rcases hsound.allocate log now with htrap | ⟨status, hrefused⟩ | ⟨addr, a₂, hok, hwrote⟩
    · rw [htrap] at last
      cases last
    · rw [hrefused] at last
      cases last
      exact ⟨hsound, hevolves⟩
    · rw [hok] at last
      cases last
      exact ⟨hwrote.sound, hevolves.trans hwrote.evolves⟩
  | invalidate prior last ih =>
    obtain ⟨hsound, hevolves⟩ := ih
    obtain ⟨hsound', hevolves', -⟩ := hsound.invalidate_evolves last
    exact ⟨hsound', hevolves.trans hevolves'⟩

end Reclaim.Area
