import Reclaim.Proofs.Area.Clock
import Reclaim.Proofs.Area.Sections

/-!
# Requests until no space is left

A log writes the rest of its open segment, then the segments behind it in its section, then whole
free sections, and is refused when there is no block left of these: `Area.room` counts them. The
count is exact because the segments behind an open one are free (`ClearAhead`), in every area that
commands have led to (`Run.clearAhead`). `Extends` says what writing a number of blocks at the head
of a log does: the written addresses and what is left of the segment open then are what was left of
the segment open before, followed by all blocks of segments that were free. The two steps of a log
are of this form, writing a block (`Filled.extends`) and moving on (`ClearAhead.advance`), and
`Extends.trans` puts them together to requests and lists of requests.
-/

namespace Reclaim

/-- The addresses of the blocks of a segment. -/
def Geometry.blocks (g : Geometry) (seg : ℕ) : List Address :=
  (List.range g.segmentBlocks).map (g.startBlock seg + ·)

/-- The number of segments behind a segment in its section. -/
def Geometry.behind (g : Geometry) (seg : ℕ) : ℕ :=
  g.segmentsPerSection - 1 - seg % g.segmentsPerSection

namespace Geometry

variable {g : Geometry} {seg : ℕ}

/-- The last segment of a section is the one in front of a section. -/
theorem behind_eq_zero_iff (hg : g.Valid) :
    g.behind seg = 0 ↔ (seg + 1) % g.segmentsPerSection = 0 := by
  have hpos := hg.perSection_pos
  have hlt := Nat.mod_lt seg hpos
  have hdiv := Nat.div_add_mod seg g.segmentsPerSection
  have hnext : seg + 1 =
      g.segmentsPerSection * (seg / g.segmentsPerSection) + (seg % g.segmentsPerSection + 1) := by
    omega
  unfold behind
  rw [hnext, Nat.mul_add_mod]
  rcases Nat.lt_or_ge (seg % g.segmentsPerSection + 1) g.segmentsPerSection with hin | hend
  · rw [Nat.mod_eq_of_lt hin]
    omega
  · rw [show seg % g.segmentsPerSection + 1 = g.segmentsPerSection by omega, Nat.mod_self]
    omega

/-- One segment fewer is behind the next one of the section. -/
theorem behind_succ (hg : g.Valid) (h : g.behind seg ≠ 0) :
    g.behind (seg + 1) + 1 = g.behind seg := by
  have hnext : g.sectionOf (seg + 1) = g.sectionOf seg :=
    sectionOf_succ fun hzero => h ((behind_eq_zero_iff hg).mpr hzero)
  have hdiv := Nat.div_add_mod seg g.segmentsPerSection
  have hdiv' := Nat.div_add_mod (seg + 1) g.segmentsPerSection
  unfold sectionOf at hnext
  rw [hnext] at hdiv'
  have hlt := Nat.mod_lt (seg + 1) hg.perSection_pos
  unfold behind at *
  omega

/-- All other segments of a section are behind its first one. -/
theorem behind_firstSegment (hg : g.Valid) (sec : ℕ) :
    g.behind (g.firstSegment sec) + 1 = g.segmentsPerSection := by
  have hpos := hg.perSection_pos
  unfold behind firstSegment
  rw [Nat.mul_mod_left]
  omega

/-- A segment has its number of blocks. -/
theorem length_blocks (g : Geometry) (seg : ℕ) : (g.blocks seg).length = g.segmentBlocks := by
  simp [blocks]

end Geometry

namespace Area

variable {a a' : Area} {seg : ℕ} {log : Log}

/-! ## Free segments behind the logs in every run -/

/-- What neither writes nor drops nor frees blocks leaves the segments behind the logs free. -/
theorem ClearAhead.of_quiet (hc : a.ClearAhead) (h : a.Quiet a') : a'.ClearAhead :=
  hc.of_kept h.geometry (fun l => by rw [h.heads]) fun s hs => by
    unfold isUsed at hs ⊢
    rw [← h.free]
    exact hs

/-- Segments behind the logs of a created area are free. -/
theorem create_clearAhead {l : Layout} (h : create l = .ok (.ok a)) : a.ClearAhead :=
  (create_zoned h).ahead

/-! ## Blocks left to a log -/

/-- The addresses left in the open segment of a log. -/
def remaining (a : Area) (log : Log) : List Address :=
  (a.geometry.blocks (a.heads.get log).segment).drop (a.heads.get log).next

/-- The blocks that a log can write: those left in its open segment, those of the segments behind it
in its section, and those of the free sections. -/
def room (a : Area) (log : Log) : ℕ :=
  (a.geometry.segmentBlocks - (a.heads.get log).next) +
    a.geometry.behind (a.heads.get log).segment * a.geometry.segmentBlocks +
    a.free.freeSections * a.geometry.sectionBlocks

/-- Nothing is left in a segment that is full. -/
theorem remaining_of_full (hfull : a.geometry.segmentBlocks ≤ (a.heads.get log).next) :
    a.remaining log = [] :=
  List.drop_eq_nil_of_le ((Geometry.length_blocks _ _).trans_le hfull)

/-- What writing blocks at the head of a log does. -/
structure Extends (a : Area) (log : Log) (addrs : List Address) (a' : Area) : Prop where
  /-- The area is sound. -/
  sound : a'.Sound
  /-- The segments behind the logs are free. -/
  clear : a'.ClearAhead
  /-- The area has evolved. -/
  evolves : a.Evolves a'
  /-- The written blocks are live, and every other one is as before. -/
  live : ∀ x, a'.LiveAt x ↔ a.LiveAt x ∨ x ∈ addrs
  /-- The written blocks were not spent. -/
  unspent : ∀ x ∈ addrs, ¬a.Spent x
  /-- No block is written twice. -/
  nodup : addrs.Nodup
  /-- The log has as many blocks less to write. -/
  room : a'.room log + addrs.length = a.room log
  /-- Segments in use stay so. -/
  used : ∀ s, a.isUsed s = true → a'.isUsed s = true
  /-- The log has written its segment to the end, and then free segments from their start. -/
  blocks : ∃ segs : List ℕ, segs.Nodup ∧ (∀ s ∈ segs, a.isUsed s = false ∧ a'.isUsed s = true) ∧
    addrs ++ a'.remaining log = a.remaining log ++ segs.flatMap a.geometry.blocks

/-- Nothing has been written. -/
theorem Extends.refl (ha : a.Sound) (hc : a.ClearAhead) (log : Log) : a.Extends log [] a where
  sound := ha
  clear := hc
  evolves := .refl a
  live x := by simp
  unspent x hx := absurd hx List.not_mem_nil
  nodup := List.nodup_nil
  room := rfl
  used _ h := h
  blocks := ⟨[], List.nodup_nil, fun s hs => absurd hs List.not_mem_nil, by simp⟩

/-- Some blocks have been written and then more. -/
theorem Extends.trans {a₁ : Area} {addrs addrs' : List Address} (h : a.Extends log addrs a₁)
    (h' : a₁.Extends log addrs' a') : a.Extends log (addrs ++ addrs') a' where
  sound := h'.sound
  clear := h'.clear
  evolves := h.evolves.trans h'.evolves
  live x := by rw [h'.live, h.live, List.mem_append, or_assoc]
  unspent x hx := by
    rcases List.mem_append.mp hx with hx | hx
    · exact h.unspent x hx
    · exact fun hspent => h'.unspent x hx (h.evolves.spent x hspent)
  nodup := by
    -- What has been written is spent, and is not written again.
    refine h.nodup.append h'.nodup fun x hx hx' => h'.unspent x hx' ?_
    exact h.sound.spent_of_live ((h.live x).mpr (Or.inr hx))
  room := by
    have hfirst := h.room
    have hsecond := h'.room
    rw [List.length_append]
    omega
  used s hs := h'.used s (h.used s hs)
  blocks := by
    obtain ⟨segs, hnodup, hfree, hsegs⟩ := h.blocks
    obtain ⟨segs', hnodup', hfree', hsegs'⟩ := h'.blocks
    refine ⟨segs ++ segs', hnodup.append hnodup' fun s hs hs' => ?_, fun s hs => ?_, ?_⟩
    · have hin := (hfree s hs).2
      rw [(hfree' s hs').1] at hin
      cases hin
    · rcases List.mem_append.mp hs with hs | hs
      · exact ⟨(hfree s hs).1, h'.used s (hfree s hs).2⟩
      · refine ⟨?_, (hfree' s hs).2⟩
        rw [← Bool.not_eq_true]
        intro hin
        have hout := (hfree' s hs).1
        rw [h.used s hin] at hout
        cases hout
    · rw [List.append_assoc, hsegs', ← List.append_assoc, hsegs, List.flatMap_append,
        List.append_assoc, h.evolves.geometry]

/-! ## Moving on -/

/-- A log moves on to the next segment of its section while there is one, and to a free section
otherwise. -/
theorem ClearAhead.successor?_eq (ha : a.Sound) (hc : a.ClearAhead) (log : Log) :
    a.successor? (a.heads.get log).segment =
      if a.geometry.behind (a.heads.get log).segment = 0 then
        (a.free.find? a.geometry
          ((a.geometry.sectionOf (a.heads.get log).segment + 1) % a.geometry.sections)).map
          a.geometry.firstSegment
      else some ((a.heads.get log).segment + 1) := by
  have hseg := ha.lt_of_used (ha.heads log).used
  unfold successor?
  dsimp only
  by_cases hlast : a.geometry.behind (a.heads.get log).segment = 0
  · rw [if_pos hlast, if_neg fun h => h.1 ((Geometry.behind_eq_zero_iff ha.geometry).mp hlast)]
  · have hmod := mt (Geometry.behind_eq_zero_iff ha.geometry).mpr hlast
    have hsec := Geometry.sectionOf_succ hmod
    have hlt := Geometry.lt_segments_of_sectionOf ha.geometry
      (Geometry.sectionOf_lt ha.geometry hseg) hsec
    have hfree := hc log _ (Nat.lt_succ_self _) hsec
    unfold isUsed at hfree
    rw [if_neg hlast, if_pos ⟨hmod, hlt, by rw [hfree]; rfl⟩]

/-- A full log that opens the segment it moves on to can write as many blocks as before. -/
theorem Opened.room (h : a.Opened log seg a') (ha : a.Sound) (hc : a.ClearAhead)
    (hnext : a.successor? (a.heads.get log).segment = some seg)
    (hfull : a.geometry.segmentBlocks ≤ (a.heads.get log).next) : a'.room log = a.room log := by
  rw [hc.successor?_eq ha] at hnext
  unfold Area.room
  rw [h.geometry, h.head, if_pos rfl, Nat.sub_eq_zero_of_le hfull, Nat.sub_zero, Nat.zero_add]
  dsimp only
  split_ifs at hnext with hlast
  · -- A free section is taken, with all its segments.
    obtain ⟨sec, hfind, rfl⟩ := Option.map_eq_some_iff.mp hnext
    have hbehind := Geometry.behind_firstSegment ha.geometry sec
    have hfree : a.free.usedSections.contains
        (a.geometry.sectionOf (a.geometry.firstSegment sec)) = false := by
      rw [Geometry.sectionOf_firstSegment ha.geometry]
      exact (FreeMap.find?_eq_some ha.geometry hfind).2
    have hsections := h.freeSections ha.toBooks hfree
    calc a.geometry.segmentBlocks +
          a.geometry.behind (a.geometry.firstSegment sec) * a.geometry.segmentBlocks +
          a'.free.freeSections * a.geometry.sectionBlocks
        = (a.geometry.behind (a.geometry.firstSegment sec) + 1) * a.geometry.segmentBlocks +
          a'.free.freeSections * a.geometry.sectionBlocks := by rw [Nat.succ_mul, Nat.add_comm
            (a.geometry.behind (a.geometry.firstSegment sec) * a.geometry.segmentBlocks)]
      _ = a.geometry.sectionBlocks + a'.free.freeSections * a.geometry.sectionBlocks := by
          rw [hbehind, Nat.mul_comm]
          rfl
      _ = (a'.free.freeSections + 1) * a.geometry.sectionBlocks := by
          rw [Nat.succ_mul, Nat.add_comm]
      _ = _ := by rw [hsections, hlast, Nat.zero_mul, Nat.zero_add]
  · -- The next segment of the section is taken.
    cases hnext
    have hbehind := Geometry.behind_succ ha.geometry hlast
    have hsec := Geometry.sectionOf_succ (mt (Geometry.behind_eq_zero_iff ha.geometry).mpr hlast)
    have hused : a.free.usedSections.contains
        (a.geometry.sectionOf ((a.heads.get log).segment + 1)) = true :=
      (ha.free.section_used _).mpr ⟨_, hsec.symm, (ha.heads log).used⟩
    rw [h.freeSections_of_used ha.toBooks hused, ← hbehind, Nat.succ_mul, Nat.add_comm
      (a.geometry.behind _ * a.geometry.segmentBlocks)]

/-- A full log has no room when it finds nothing to move on to. -/
theorem ClearAhead.room_eq_zero (ha : a.Sound) (hc : a.ClearAhead) {log : Log}
    (hfull : a.geometry.segmentBlocks ≤ (a.heads.get log).next)
    (hnone : a.successor? (a.heads.get log).segment = none) : a.room log = 0 := by
  rw [hc.successor?_eq ha] at hnone
  split_ifs at hnone with hlast
  unfold Area.room
  rw [ha.freeSections_eq_zero (Option.map_eq_none_iff.mp hnone), hlast,
    Nat.sub_eq_zero_of_le hfull]
  simp

/-- A full log finds nothing to move on to exactly when it can write no block, and otherwise moves
on. -/
theorem ClearAhead.advance (ha : a.Sound) (hc : a.ClearAhead) (log : Log)
    (hfull : a.geometry.segmentBlocks ≤ (a.heads.get log).next) :
    (a.advance log = .ok (.error .noSpace, a) ∧ a.room log = 0) ∨
      ∃ a', a.advance log = .ok (.ok (), a') ∧ a.Extends log [] a' ∧
        (a'.heads.get log).next = 0 := by
  cases hnext : a.successor? (a.heads.get log).segment with
  | none =>
    refine Or.inl ⟨?_, hc.room_eq_zero ha hfull hnext⟩
    unfold Area.advance
    dsimp only
    rw [hnext]
    rfl
  | some seg =>
    obtain ⟨hseg, hunused, -⟩ := successor?_spec ha.toBooks hnext
    obtain ⟨a₁, hopen, h⟩ := openSegment_spec ha.toBooks log hseg
    obtain ⟨dirty, hclassify, hsound, -⟩ := (ha.exceptAt_opened hnext h).classify
    refine Or.inr ⟨{ a₁ with dirty }, ?_, ?_, ?_⟩
    · unfold Area.advance
      dsimp only
      rw [hnext]
      dsimp only
      rw [hopen, Guarded.ok_bind, hclassify]
      rfl
    · refine ⟨hsound, (hc.opened ha hnext h).of_kept rfl (fun _ => rfl) fun _ => id,
        (ha.evolves_opened hnext h).trans
          ⟨rfl, fun _ h => h, fun _ h => h, fun _ _ _ _ h => h, fun _ _ => rfl⟩, fun x => ?_,
        fun x hx => absurd hx List.not_mem_nil, List.nodup_nil, h.room ha hc hnext hfull,
        fun s hs => (h.used s).mpr (Or.inr hs),
        ⟨[seg], List.nodup_singleton seg, fun s hs => ?_, ?_⟩⟩
      · have hlive : ({ a₁ with dirty } : Area).LiveAt x ↔ a.LiveAt x := h.liveAt_iff
        simpa using hlive
      · rw [List.mem_singleton.mp hs]
        exact ⟨hunused, (h.used seg).mpr (Or.inl rfl)⟩
      · rw [remaining_of_full hfull]
        show (a₁.geometry.blocks (a₁.heads.get log).segment).drop (a₁.heads.get log).next = _
        rw [h.geometry, h.head, if_pos rfl]
        simp
    · show (a₁.heads.get log).next = 0
      rw [h.head, if_pos rfl]

/-! ## Writing -/

/-- Writing the block at the head of a log. -/
theorem Filled.extends (h : a.Filled log a') (ha : a.Sound) (hc : a.ClearAhead)
    (hnext : (a.heads.get log).next < a.geometry.segmentBlocks) :
    a.Extends log [a.geometry.startBlock (a.heads.get log).segment + (a.heads.get log).next]
      a' := by
  have hwrote := h.wrote ha hnext
  have hused : ∀ s, a'.isUsed s = true → a.isUsed s = true := fun s => by
    rw [h.isUsed_eq]
    exact id
  refine ⟨hwrote.sound, hc.of_kept h.geometry h.segment hused, hwrote.evolves, fun x => ?_,
    fun x hx => ?_, List.nodup_singleton _, ?_, fun s hs => ?_, ⟨[], List.nodup_nil,
      fun s hs => absurd hs List.not_mem_nil, ?_⟩⟩
  · rw [hwrote.live, List.mem_singleton]
  · rw [List.mem_singleton.mp hx]
    exact hwrote.unspent
  · unfold Area.room
    rw [h.geometry, h.segment, h.next, if_pos rfl, h.free]
    simp only [List.length_singleton]
    omega
  · rw [h.isUsed_eq]
    exact hs
  · have hlt : (a.heads.get log).next <
        (a.geometry.blocks (a.heads.get log).segment).length := by
      rw [Geometry.length_blocks]
      exact hnext
    unfold remaining
    rw [h.geometry, h.segment, h.next, if_pos rfl, List.drop_eq_getElem_cons hlt]
    simp [Geometry.blocks]

/-- Appending to a log that stands inside its segment writes a block, unless the sum behind the
average age of the segment is too wide. -/
theorem ClearAhead.append (ha : a.Sound) (hc : a.ClearAhead)
    (hnext : (a.heads.get log).next < a.geometry.segmentBlocks) (now : ℕ) :
    a.append log now = .error .width ∨
      ∃ addr a', a.append log now = .ok (addr, a') ∧ a.Extends log [addr] a' := by
  unfold Area.append
  dsimp only
  rcases ha.fill_spec hnext now with hfill | ⟨table, hfill, hfilled⟩
  · left
    rw [hfill]
    rfl
  · right
    rw [hfill, Guarded.ok_bind]
    have hextends := hfilled.extends ha hc hnext
    have hbehind := hfilled.next log
    dsimp only at hextends hbehind ⊢
    split_ifs with hlast
    · -- The segment is full now, and the log moves on if it can.
      rw [if_pos rfl] at hbehind
      rcases hextends.clear.advance hextends.sound log (by rw [hbehind]; exact hlast) with
        ⟨hstay, -⟩ | ⟨a', hmove, hmoved, -⟩
      · exact ⟨_, _, by rw [hstay]; rfl, hextends⟩
      · exact ⟨_, a', by rw [hmove]; rfl, hextends.trans hmoved⟩
    · exact ⟨_, _, rfl, hextends⟩

/-- A request for a block of a log is refused exactly when the log can write no block, and otherwise
writes one, unless the sum behind the average age of a segment is too wide. -/
theorem ClearAhead.allocate (ha : a.Sound) (hc : a.ClearAhead) (log : Log) (now : ℕ) :
    a.allocate (some log) now = .error .width ∨
      (a.allocate (some log) now = .ok (.error .noSpace, a) ∧ a.room log = 0) ∨
      ∃ addr a', a.allocate (some log) now = .ok (.ok addr, a') ∧ a.Extends log [addr] a' := by
  unfold Area.allocate
  dsimp only
  split_ifs with hfull
  · -- A log that was left on a full segment has to move on first.
    rcases hc.advance ha log hfull with ⟨hstay, hnone⟩ | ⟨a₁, hmove, hmoved, hstart⟩
    · exact Or.inr (Or.inl ⟨by rw [hstay]; rfl, hnone⟩)
    · have hnext : (a₁.heads.get log).next < a₁.geometry.segmentBlocks := by
        rw [hstart]
        exact Geometry.segmentBlocks_pos hmoved.sound.geometry
      rw [hmove, Guarded.ok_bind]
      dsimp only
      rcases hmoved.clear.append hmoved.sound hnext now with happend | ⟨addr, a', happend, hwrote⟩
      · left
        rw [happend]
        rfl
      · exact Or.inr (Or.inr ⟨addr, a', by rw [happend]; rfl, hmoved.trans hwrote⟩)
  · rcases hc.append ha (Nat.lt_of_not_le hfull) now with happend | ⟨addr, a', happend, hwrote⟩
    · left
      rw [happend]
      rfl
    · exact Or.inr (Or.inr ⟨addr, a', by rw [happend]; rfl, hwrote⟩)

/-! ## Runs -/

/-- A command of a run leaves the segments behind the logs free. -/
theorem ClearAhead.command (ha : a.Sound) (hc : a.ClearAhead) {command : Command}
    (hadmissible : command.Admissible a) {written : Option Address}
    (h : command.run a = .ok (written, a')) : a'.ClearAhead := by
  cases command with
  | allocate log now =>
    obtain ⟨⟨r, a₁⟩, hrun, h⟩ := Guarded.bind_eq_ok.mp h
    have hc₁ : a₁.ClearAhead := by
      cases log with
      | none =>
        cases hrun
        exact hc
      | some log =>
        rcases hc.allocate ha log now with htrap | ⟨hrefused, -⟩ | ⟨addr, a₂, hok, hwrote⟩
        · cases htrap.symm.trans hrun
        · cases hrefused.symm.trans hrun
          exact hc
        · cases hok.symm.trans hrun
          exact hwrote.clear
    cases r <;> cases h <;> exact hc₁
  | invalidate addr =>
    obtain ⟨⟨r, a₁⟩, hrun, h⟩ := Guarded.bind_eq_ok.mp h
    cases h
    rcases invalidate_cases hrun with hsame | ⟨seg, table, -, -, hclassify⟩
    · rw [hsame]
      exact hc
    · obtain ⟨dirty, rfl⟩ := classify_eq hclassify
      exact hc.of_kept rfl (fun _ => rfl) fun _ => id
  | checkpoint =>
    obtain ⟨⟨n, a₁⟩, hrun, h⟩ := Guarded.bind_eq_ok.mp h
    obtain ⟨m, a₂, hcheckpoint, hspec⟩ := ha.checkpoint
    cases hcheckpoint.symm.trans hrun
    cases h
    exact hc.of_kept hspec.geometry (fun l => by rw [hspec.heads])
      fun s hs => ((hspec.used s).mp hs).1
  | search | claim | setCursor | setLog | setMtime | setAgeBounds =>
    exact hc.of_quiet (Command.quiet_of_run ha hadmissible rfl h).2.1

/-- Segments behind the logs are free throughout a run. -/
theorem Run.clearAhead {events : List Event} (h : Run a events a') (ha : a.Sound)
    (hc : a.ClearAhead) : a'.ClearAhead := by
  induction h with
  | nil => exact hc
  | cons command written admissible ran rest ih =>
    exact ih (Command.spec ha admissible ran).sound (hc.command ha admissible ran)

/-! ## Times of 32 bits -/

/-- Whether the times that a command sets have 32 bits. -/
def Command.Clocked : Command → Prop
  | .allocate _ now => now < 2 ^ 32
  | .setMtime _ mtime => mtime < 2 ^ 32
  | .invalidate _ | .checkpoint | .search .. | .claim _ | .setCursor .. | .setLog .. |
    .setAgeBounds .. => True

instance (command : Command) : Decidable command.Clocked :=
  match command with
  | .allocate _ now => inferInstanceAs (Decidable (now < 2 ^ 32))
  | .setMtime _ mtime => inferInstanceAs (Decidable (mtime < 2 ^ 32))
  | .invalidate _ | .checkpoint | .search .. | .claim _ | .setCursor .. | .setLog .. |
    .setAgeBounds .. => .isTrue trivial

/-- Giving a segment to another log leaves the ages as they are. -/
theorem clocked_of_setLog (hclocked : a.table.Clocked) {seg : ℕ} {log : Option Log}
    (h : a.setLog seg log = .ok a') : a'.table.Clocked := by
  unfold setLog at h
  obtain ⟨s, hget, h⟩ := Guarded.bind_eq_ok.mp h
  obtain ⟨hlt, rfl⟩ := SegmentTable.get_eq_ok.mp hget
  have hput : (a.table.put seg { a.table.record seg with log }).Clocked :=
    hclocked.put hlt (hclocked seg)
  dsimp only at h
  split_ifs at h
  · obtain ⟨d, -, h⟩ := Guarded.bind_eq_ok.mp h
    obtain ⟨dirty, rfl⟩ := classify_eq h
    exact hput
  · obtain ⟨dirty, rfl⟩ := classify_eq h
    exact hput

/-- A command whose times have 32 bits leaves all ages in 32 bits. -/
theorem Command.Clocked.table (ha : a.Sound) (hclocked : a.table.Clocked) {command : Command}
    (hcommand : command.Clocked) {written : Option Address}
    (h : command.run a = .ok (written, a')) : a'.table.Clocked := by
  cases command with
  | allocate log now =>
    obtain ⟨⟨r, a₁⟩, hrun, h⟩ := Guarded.bind_eq_ok.mp h
    obtain ⟨r', a₂, hrun', -, hclocked'⟩ := ha.exists_allocate hclocked log hcommand
    cases hrun'.symm.trans hrun
    cases r <;> cases h <;> exact hclocked'
  | invalidate addr =>
    obtain ⟨⟨r, a₁⟩, hrun, h⟩ := Guarded.bind_eq_ok.mp h
    cases h
    exact clocked_of_invalidate hclocked hrun
  | checkpoint =>
    obtain ⟨⟨n, a₁⟩, hrun, h⟩ := Guarded.bind_eq_ok.mp h
    obtain ⟨m, a₂, hcheckpoint, hspec⟩ := ha.checkpoint
    cases hcheckpoint.symm.trans hrun
    cases h
    rw [hspec.table]
    exact hclocked.save
  | search trigger log reuse =>
    obtain ⟨⟨r, a₁⟩, hrun, h⟩ := Guarded.bind_eq_ok.mp h
    cases h
    exact hclocked.of_records (ha.findVictim hrun).1.records
  | claim _ | setCursor _ _ =>
    cases h
    exact hclocked
  | setLog seg log =>
    obtain ⟨a₁, hrun, h⟩ := Guarded.bind_eq_ok.mp h
    cases h
    exact clocked_of_setLog hclocked hrun
  | setMtime seg mtime =>
    obtain ⟨a₁, hrun, h⟩ := Guarded.bind_eq_ok.mp h
    cases h
    obtain ⟨table, hupdate, hrun⟩ := Guarded.bind_eq_ok.mp hrun
    cases hrun
    obtain ⟨hlt, rfl⟩ := SegmentTable.update_eq_ok.mp hupdate
    exact hclocked.put hlt hcommand
  | setAgeBounds oldest newest =>
    cases h
    exact hclocked.of_records rfl

/-- A run whose times have 32 bits leaves all ages in 32 bits. -/
theorem Run.clocked {events : List Event} (h : Run a events a') (ha : a.Sound)
    (hclocked : a.table.Clocked) (hevents : ∀ e ∈ events, e.command.Clocked) :
    a'.table.Clocked := by
  induction h with
  | nil => exact hclocked
  | cons command written admissible ran rest ih =>
    have hclocked₁ := Command.Clocked.table ha hclocked (hevents _ List.mem_cons_self) ran
    exact ih (Command.spec ha admissible ran).sound hclocked₁
      fun e he => hevents e (List.mem_cons_of_mem _ he)

/-! ## Lists of requests -/

/-- Requests blocks at a list of times, up to the first request that is refused, and tells the
addresses and the refusal. -/
def allocateEach (a : Area) (log : Option Log) :
    List ℕ → Guarded ((List Address × Option Status) × Area)
  | [] => return (([], none), a)
  | now :: times => do
    match ← a.allocate log now with
    | (.error status, a) => return (([], some status), a)
    | (.ok addr, a) =>
      let ((addrs, refused), a) ← a.allocateEach log times
      return ((addr :: addrs, refused), a)

/-- Requests at one time are those that are made together. -/
theorem allocateMany_eq (log : Option Log) (now : ℕ) :
    ∀ (n : ℕ) (a : Area), a.allocateMany log now n = a.allocateEach log (List.replicate n now)
  | 0, _ => rfl
  | n + 1, a => by
    unfold allocateMany
    rw [List.replicate_succ]
    unfold allocateEach
    rcases a.allocate log now with trap | ⟨status | addr, a₁⟩
    · rfl
    · rfl
    · rw [Guarded.ok_bind, Guarded.ok_bind]
      dsimp only
      rw [allocateMany_eq log now n]

/-- Requests at times of 32 bits give a result. -/
theorem Sound.exists_allocateEach (log : Option Log) : ∀ {times : List ℕ} {a : Area}, a.Sound →
    a.table.Clocked → (∀ now ∈ times, now < 2 ^ 32) → ∃ r, a.allocateEach log times = .ok r
  | [], _, _, _, _ => ⟨_, rfl⟩
  | now :: times, a, ha, hclocked, htimes => by
    obtain ⟨r, a₁, hrun, ha₁, hclocked₁⟩ :=
      ha.exists_allocate hclocked log (htimes now List.mem_cons_self)
    unfold allocateEach
    rw [hrun, Guarded.ok_bind]
    cases r with
    | error status => exact ⟨_, rfl⟩
    | ok addr =>
      obtain ⟨r', hrest⟩ := ha₁.exists_allocateEach log hclocked₁
        fun now hnow => htimes now (List.mem_cons_of_mem _ hnow)
      exact ⟨_, by dsimp only; rw [hrest]; rfl⟩

/-- Requests for blocks of a log are granted until the log can write no block. -/
theorem ClearAhead.allocateEach : ∀ {times : List ℕ} {a a' : Area} {addrs : List Address}
    {refused : Option Status}, a.Sound → a.ClearAhead →
    a.allocateEach (some log) times = .ok ((addrs, refused), a') →
    a.Extends log addrs a' ∧
      (refused = none ∧ addrs.length = times.length ∨
        refused = some .noSpace ∧ a'.room log = 0 ∧ addrs.length < times.length)
  | [], a, a', addrs, refused, ha, hc, h => by
    cases h
    exact ⟨.refl ha hc log, Or.inl ⟨rfl, rfl⟩⟩
  | now :: times, a, a', addrs, refused, ha, hc, h => by
    unfold Area.allocateEach at h
    obtain ⟨⟨r, a₁⟩, hrun, h⟩ := Guarded.bind_eq_ok.mp h
    rcases hc.allocate ha log now with htrap | ⟨hrefused, hnone⟩ | ⟨addr, a₂, hok, hwrote⟩
    · cases htrap.symm.trans hrun
    · cases hrefused.symm.trans hrun
      cases h
      exact ⟨.refl ha hc log, Or.inr ⟨rfl, hnone, Nat.succ_pos _⟩⟩
    · cases hok.symm.trans hrun
      obtain ⟨⟨⟨addrs', refused'⟩, a₃⟩, hrest, h⟩ := Guarded.bind_eq_ok.mp h
      cases h
      obtain ⟨hextends, hend⟩ := hwrote.clear.allocateEach hwrote.sound hrest
      refine ⟨hwrote.trans hextends, ?_⟩
      simp only [List.length_cons, Nat.add_right_cancel_iff, Nat.add_lt_add_iff_right]
      exact hend

/-- What comes of a number of requests for blocks of a log. -/
structure Filling (a : Area) (log : Log) (requests : ℕ) (addrs : List Address)
    (refused : Option Status) (a' : Area) : Prop where
  /-- As many are granted as the log can write blocks. -/
  granted : addrs.length = min requests (a.room log)
  /-- The next one is refused for lack of space. -/
  refused_eq : refused = if requests ≤ a.room log then none else some .noSpace
  /-- No address is told twice. -/
  nodup : addrs.Nodup
  /-- The rest of the open segment is written, and then segments that were free, each from its start
  on; what is left of the last one stays with the log. -/
  blocks : ∃ segs : List ℕ, segs.Nodup ∧ (∀ s ∈ segs, a.isUsed s = false) ∧
    addrs ++ a'.remaining log = a.remaining log ++ segs.flatMap a.geometry.blocks
  /-- The blocks whose addresses are told are live, and every other one is as before. -/
  live : ∀ x, a'.LiveAt x ↔ a.LiveAt x ∨ x ∈ addrs

/-- Requests for blocks of a log fill the space that the log can reach. -/
theorem ClearAhead.filling (ha : a.Sound) (hc : a.ClearAhead) {times : List ℕ}
    {addrs : List Address} {refused : Option Status}
    (h : a.allocateEach (some log) times = .ok ((addrs, refused), a')) :
    a.Filling log times.length addrs refused a' := by
  obtain ⟨hextends, hend⟩ := hc.allocateEach ha h
  have hroom := hextends.room
  obtain ⟨segs, hnodup, hfree, hblocks⟩ := hextends.blocks
  refine ⟨?_, ?_, hextends.nodup, ⟨segs, hnodup, fun s hs => (hfree s hs).1, hblocks⟩,
    hextends.live⟩
  · rcases hend with ⟨-, hall⟩ | ⟨-, hnone, hlt⟩ <;> omega
  · rcases hend with ⟨rfl, hall⟩ | ⟨rfl, hnone, hlt⟩
    · rw [if_pos (by omega)]
    · rw [if_neg (by omega)]

/-- In every area that a run from a created one reaches, requests for blocks of a log are granted as
long as there is a block left in its segment, in a segment behind it in its section or in a free
section, and then refused. They give a result if all times have 32 bits. A refused request changes
nothing, and a granted one makes the block live whose address it tells and no other. -/
theorem requests_fill_room {l : Layout} {a₀ : Area} {events : List Event}
    (hcreate : create l = .ok (.ok a₀)) (h : Run a₀ events a) :
    (∀ log times addrs refused a', a.allocateEach (some log) times = .ok ((addrs, refused), a') →
        a.Filling log times.length addrs refused a') ∧
      ((∀ e ∈ events, e.command.Clocked) → ∀ log times, (∀ now ∈ times, now < 2 ^ 32) →
        ∃ r, a.allocateEach log times = .ok r) ∧
      (∀ log now status a', a.allocate log now = .ok (.error status, a') →
        status = (if log = none then .invalidArgument else .noSpace) ∧ a' = a) ∧
      ∀ log now addr a', a.allocate log now = .ok (.ok addr, a') →
        ¬a.LiveAt addr ∧ ∀ x, a'.LiveAt x ↔ a.LiveAt x ∨ x = addr := by
  have ha₀ := create_sound hcreate
  obtain ⟨ha, -⟩ := h.sound ha₀
  have hc := h.clearAhead ha₀ (create_clearAhead hcreate)
  refine ⟨fun log times addrs refused a' hrun => hc.filling ha hrun, fun hevents log times htimes =>
    ha.exists_allocateEach log (h.clocked ha₀ (create_ready hcreate).clocked hevents) htimes,
    ?_, ?_⟩
  · intro log now status a' hrun
    cases log with
    | none =>
      cases hrun
      exact ⟨rfl, rfl⟩
    | some log =>
      rcases hc.allocate ha log now with htrap | ⟨hrefused, -⟩ | ⟨addr, a₂, hok, -⟩
      · cases htrap.symm.trans hrun
      · cases hrefused.symm.trans hrun
        exact ⟨rfl, rfl⟩
      · cases hok.symm.trans hrun
  · intro log now addr a' hrun
    cases log with
    | none => cases hrun
    | some log =>
      rcases hc.allocate ha log now with htrap | ⟨hrefused, -⟩ | ⟨addr', a₂, hok, hwrote⟩
      · cases htrap.symm.trans hrun
      · cases hrefused.symm.trans hrun
      · cases hok.symm.trans hrun
        refine ⟨fun hlive => hwrote.unspent addr List.mem_cons_self (ha.spent_of_live hlive),
          fun x => ?_⟩
        rw [hwrote.live, List.mem_singleton]

/-- A log that has written one block of the first of its two segments writes the other block, the
segment behind it and the free section, and is then refused. -/
theorem requests_fill_room_paired : ∃ a₀ events a a', create pairedLayout = .ok (.ok a₀) ∧
    Run a₀ events a ∧ a.room Log.hotData = 7 ∧
    a.allocateEach (some Log.hotData) [6, 7, 8, 9, 9, 9, 9, 9, 9] =
      .ok (([65, 66, 67, 88, 89, 90, 91], some .noSpace), a') ∧
    a.Filling Log.hotData 9 [65, 66, 67, 88, 89, 90, 91] (some .noSpace) a' := by
  obtain ⟨a₀, events, a, hcreate, hrun, h⟩ := Run.of_reaches pairedLayout
    [.allocate (some Log.hotData) 5]
    (fun _ a => a.room Log.hotData = 7 &&
      match a.allocateEach (some Log.hotData) [6, 7, 8, 9, 9, 9, 9, 9, 9] with
      | .ok (r, _) => r = ([65, 66, 67, 88, 89, 90, 91], some .noSpace)
      | .error _ => false) (by decide +kernel)
  rw [Bool.and_eq_true] at h
  obtain ⟨hroom, h⟩ := h
  split at h
  · next r a' hrequests =>
    rw [of_decide_eq_true h] at hrequests
    exact ⟨a₀, events, a, a', hcreate, hrun, of_decide_eq_true hroom, hrequests,
      (requests_fill_room hcreate hrun).1 _ _ _ _ _ hrequests⟩
  · cases h

end Area

end Reclaim
