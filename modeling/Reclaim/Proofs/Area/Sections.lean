import Reclaim.Proofs.Area.Frame
import Reclaim.Proofs.Area.Runs

/-!
# No two logs share a section

A log fills its section from the front and then looks for a free one, so as long as no segment is
filed under another log on request, a section in use belongs to one log: the segments in use there
are filed under it, and those behind its head are free (`Zoned`). The step that carries this is a
log moving on (`ClearAhead.opened`, `Zoned.opened`): the next segment continues its own section, and
any other one starts a free section. `create_spec` counts the free sections while the logs open
their first segments, six in all. The results are put together in `sections_belong_to_logs`.
-/

namespace Reclaim

/-! ## The logs that records are filed under -/

/-- Writing a block keeps the log of a segment. -/
theorem Segment.log_of_fill {s s' : Segment} {off now : ℕ} {changed : Bool}
    (h : s.fill off now = .ok (changed, s')) : s'.log = s.log := by
  rcases fill_cases h with ⟨-, rfl⟩ | ⟨-, map, rfl⟩
  · rfl
  · rfl

namespace SegmentTable

variable {t t' : SegmentTable} {seg : ℕ}

/-- A record that is changed without its log leaves every segment filed as it was. -/
theorem log_put (h : seg < t.records.size) {s : Segment} (hs : s.log = (t.record seg).log) (k : ℕ) :
    ((t.put seg s).record k).log = (t.record k).log := by
  rw [record_put h]
  split_ifs with hk
  · rw [hk, hs]
  · rfl

/-- Writing a block leaves every segment filed as it was. -/
theorem log_of_fill {off now : ℕ} {changed : Bool} (h : t.fill seg off now = .ok (changed, t'))
    (k : ℕ) : (t'.record k).log = (t.record k).log := by
  unfold fill at h
  obtain ⟨s, hget, h⟩ := Guarded.bind_eq_ok.mp h
  obtain ⟨hlt, rfl⟩ := get_eq_ok.mp hget
  obtain ⟨⟨filled, s'⟩, hfill, h⟩ := Guarded.bind_eq_ok.mp h
  have hput := log_put hlt (Segment.log_of_fill hfill) k
  dsimp only at h
  split_ifs at h
  · cases h
    exact hput
  · cases h
    rfl

/-- Changing a record without its log leaves every segment filed as it was. -/
theorem log_of_update {f : Segment → Segment} (hf : ∀ s, (f s).log = s.log)
    (h : t.update seg f = .ok t') (k : ℕ) : (t'.record k).log = (t.record k).log := by
  obtain ⟨hlt, rfl⟩ := update_eq_ok.mp h
  exact log_put hlt (hf _) k

end SegmentTable

namespace Area

variable {a a' : Area} {seg : ℕ} {log : Log}

/-- The segment that a log opens is filed under it. -/
theorem log_of_openSegment (h : a.openSegment log seg = .ok a') :
    (a'.table.record seg).log = some log := by
  unfold openSegment at h
  obtain ⟨free, -, h⟩ := Guarded.bind_eq_ok.mp h
  obtain ⟨table, hupdate, h⟩ := Guarded.bind_eq_ok.mp h
  cases h
  obtain ⟨hlt, rfl⟩ := SegmentTable.update_eq_ok.mp hupdate
  show ((a.table.put seg _).record seg).log = some log
  rw [SegmentTable.record_put hlt, if_pos rfl]

/-! ## Free segments behind the logs -/

/-- The segments of a free section are free. -/
theorem Books.unused_of_section (ha : a.Books) {sec : ℕ}
    (hfree : a.free.usedSections.contains sec = false) (hseg : a.geometry.sectionOf seg = sec) :
    a.isUsed seg = false := by
  rw [← Bool.not_eq_true] at hfree ⊢
  exact fun hused => hfree ((ha.free.section_used sec).mpr ⟨seg, hseg, hused⟩)

/-- A log moves on to the next segment of its section, or to the first one of a section that has
been found free. -/
theorem successor?_cases {old : ℕ} (h : a.successor? old = some seg) :
    seg = old + 1 ∧ a.geometry.sectionOf seg = a.geometry.sectionOf old ∨
      ∃ hint sec, a.free.find? a.geometry hint = some sec ∧ seg = a.geometry.firstSegment sec := by
  unfold successor? at h
  dsimp only at h
  split_ifs at h with hnext
  · cases h
    exact Or.inl ⟨rfl, Geometry.sectionOf_succ hnext.1⟩
  · obtain ⟨sec, hfind, rfl⟩ := Option.map_eq_some_iff.mp h
    exact Or.inr ⟨_, sec, hfind, rfl⟩

/-- Whether the segments of a section behind the open one of a log are free. -/
def ClearAhead (a : Area) : Prop :=
  ∀ log seg, (a.heads.get log).segment < seg →
    a.geometry.sectionOf seg = a.geometry.sectionOf (a.heads.get log).segment → a.isUsed seg = false

/-- What is free behind the logs stays so as long as no log moves and no segment goes into use. -/
theorem ClearAhead.of_kept (hc : a.ClearAhead) (hgeometry : a'.geometry = a.geometry)
    (hsegment : ∀ l, (a'.heads.get l).segment = (a.heads.get l).segment)
    (hused : ∀ s, a'.isUsed s = true → a.isUsed s = true) : a'.ClearAhead := by
  intro l s
  rw [hgeometry, hsegment]
  intro hlt hsec
  have hfree := hc l s hlt hsec
  rw [← Bool.not_eq_true] at hfree ⊢
  exact fun h => hfree (hused s h)

/-- In the section that a log moves on to, what is in use lies before the segment that it opens. -/
theorem ClearAhead.lt_of_successor (ha : a.Sound) (hc : a.ClearAhead)
    (hnext : a.successor? (a.heads.get log).segment = some seg) {s : ℕ} (hin : a.isUsed s = true)
    (hsec : a.geometry.sectionOf s = a.geometry.sectionOf seg) : s < seg := by
  rcases successor?_cases hnext with ⟨rfl, hsame⟩ | ⟨hint, sec, hfind, rfl⟩
  · -- Behind the head of the log its section is free.
    by_contra hle
    have hfree := hc log s (by omega) (hsec.trans hsame)
    rw [hin] at hfree
    cases hfree
  · -- Nothing is in use in a free section.
    rw [Geometry.sectionOf_firstSegment ha.geometry] at hsec
    rw [ha.unused_of_section (FreeMap.find?_eq_some ha.geometry hfind).2 hsec] at hin
    cases hin

/-- The segments behind the logs are free when a log has opened the segment that it moves on to. -/
theorem ClearAhead.opened (ha : a.Sound) (hc : a.ClearAhead)
    (hnext : a.successor? (a.heads.get log).segment = some seg) (h : a.Opened log seg a') :
    a'.ClearAhead := by
  -- The log that moves on has its section free behind the new head; the others keep theirs, since
  -- the segment that is opened lies in none of these.
  intro l s
  rw [h.geometry, h.head, ← Bool.not_eq_true, h.used]
  split_ifs with hl
  · rintro hlt hsec (rfl | hin)
    · exact Nat.lt_irrefl _ hlt
    · exact Nat.lt_asymm hlt (hc.lt_of_successor ha hnext hin hsec)
  · rintro hlt hsec (rfl | hin)
    · exact ha.successor_apart hnext hl hsec.symm
    · rw [hc l s hlt hsec] at hin
      cases hin

/-! ## Sections that belong to logs -/

/-- Each section in use belongs to one log, which has written it up to its head. -/
structure Zoned (a : Area) : Prop where
  /-- The open segment of a log is filed under it. -/
  filed : ∀ log, (a.table.record (a.heads.get log).segment).log = some log
  /-- The segments of a section behind the open one are free. -/
  ahead : ∀ log seg, (a.heads.get log).segment < seg →
    a.geometry.sectionOf seg = a.geometry.sectionOf (a.heads.get log).segment →
    a.isUsed seg = false
  /-- Segments in use of one section are filed under one log. -/
  uniform : ∀ seg seg', a.isUsed seg = true → a.isUsed seg' = true →
    a.geometry.sectionOf seg = a.geometry.sectionOf seg' →
    (a.table.record seg).log = (a.table.record seg').log

/-- Sections belong to logs as long as no log moves, no segment is filed anew and none goes into
use. -/
theorem Zoned.of_kept (hz : a.Zoned) (hgeometry : a'.geometry = a.geometry)
    (hsegment : ∀ l, (a'.heads.get l).segment = (a.heads.get l).segment)
    (hlog : ∀ s, (a'.table.record s).log = (a.table.record s).log)
    (hused : ∀ s, a'.isUsed s = true → a.isUsed s = true) : a'.Zoned where
  filed l := by rw [hsegment, hlog, hz.filed]
  ahead := ClearAhead.of_kept hz.ahead hgeometry hsegment hused
  uniform s s' hs hs' := by
    rw [hgeometry, hlog, hlog]
    exact hz.uniform s s' (hused s hs) (hused s' hs')

/-- After a free segment has been opened for a log, the open segment of each log is filed under it
if that of every other log was so before. -/
theorem Opened.filed (h : a.Opened log seg a') (hopen : a.openSegment log seg = .ok a')
    (hunused : a.isUsed seg = false) {l : Log}
    (hother : l ≠ log → a.isUsed (a.heads.get l).segment = true ∧
      (a.table.record (a.heads.get l).segment).log = some l) :
    (a'.table.record (a'.heads.get l).segment).log = some l := by
  rw [h.head]
  split_ifs with hl
  · rw [hl]
    exact log_of_openSegment hopen
  · obtain ⟨hin, hfiled⟩ := hother hl
    have hne : (a.heads.get l).segment ≠ seg := by
      intro heq
      rw [heq, hunused] at hin
      cases hin
    rw [h.log _ hne, hfiled]

/-! ## Moving on -/

/-- In the section that a log moves on to, what is in use is filed under the log and lies before the
segment that it opens. -/
theorem Zoned.section_of_successor (ha : a.Sound) (hz : a.Zoned)
    (hnext : a.successor? (a.heads.get log).segment = some seg) {s : ℕ} (hin : a.isUsed s = true)
    (hsec : a.geometry.sectionOf s = a.geometry.sectionOf seg) :
    s < seg ∧ (a.table.record s).log = some log := by
  refine ⟨ClearAhead.lt_of_successor ha hz.ahead hnext hin hsec, ?_⟩
  rcases successor?_cases hnext with ⟨rfl, hsame⟩ | ⟨hint, sec, hfind, rfl⟩
  · rw [hz.uniform s _ hin (ha.heads log).used (hsec.trans hsame), hz.filed]
  · -- Nothing is in use in a free section.
    rw [Geometry.sectionOf_firstSegment ha.geometry] at hsec
    rw [ha.unused_of_section (FreeMap.find?_eq_some ha.geometry hfind).2 hsec] at hin
    cases hin

/-- Sections belong to logs when a log has opened the segment that it moves on to. -/
theorem Zoned.opened (ha : a.Sound) (hz : a.Zoned)
    (hnext : a.successor? (a.heads.get log).segment = some seg) (h : a.Opened log seg a')
    (hopen : a.openSegment log seg = .ok a') : a'.Zoned := by
  obtain ⟨-, hunused, -⟩ := successor?_spec ha.toBooks hnext
  -- The segment that is opened is filed like what is in use in its section.
  have hlog : ∀ s, a'.isUsed s = true → a.geometry.sectionOf s = a.geometry.sectionOf seg →
      (a'.table.record s).log = some log := by
    intro s hin hsec
    rcases (h.used s).mp hin with rfl | hin
    · exact log_of_openSegment hopen
    · obtain ⟨hlt, hfiled⟩ := hz.section_of_successor ha hnext hin hsec
      rw [h.log s (by omega), hfiled]
  refine ⟨?_, ClearAhead.opened ha hz.ahead hnext h, ?_⟩
  · exact fun l => h.filed hopen hunused fun _ => ⟨(ha.heads l).used, hz.filed l⟩
  · intro s s' hs hs' hsec
    rw [h.geometry] at hsec
    by_cases hnew : a.geometry.sectionOf s = a.geometry.sectionOf seg
    · rw [hlog s hs hnew, hlog s' hs' (hsec.symm.trans hnew)]
    · -- In other sections the segments in use and their logs are as before.
      have hold : ∀ k, a'.isUsed k = true → a.geometry.sectionOf k = a.geometry.sectionOf s →
          k ≠ seg ∧ a.isUsed k = true := by
        intro k hk hksec
        have hne : k ≠ seg := by
          rintro rfl
          exact hnew hksec.symm
        exact ⟨hne, ((h.used k).mp hk).resolve_left hne⟩
      obtain ⟨hne, hin⟩ := hold s hs rfl
      obtain ⟨hne', hin'⟩ := hold s' hs' hsec.symm
      rw [h.log s hne, h.log s' hne', hz.uniform s s' hin hin' hsec]

/-- Sections belong to logs when a log has moved on. -/
theorem Zoned.advance (ha : a.Sound) (hz : a.Zoned) {r : Outcome Unit}
    (h : a.advance log = .ok (r, a')) : a'.Zoned := by
  unfold Area.advance at h
  dsimp only at h
  split at h
  · cases h
    exact hz
  · next seg hnext =>
    obtain ⟨a₁, hopen, h⟩ := Guarded.bind_eq_ok.mp h
    obtain ⟨a₂, hclassify, h⟩ := Guarded.bind_eq_ok.mp h
    cases h
    obtain ⟨hseg, -, -⟩ := successor?_spec ha.toBooks hnext
    obtain ⟨a₃, hopen', hopened⟩ := openSegment_spec ha.toBooks log hseg
    cases hopen'.symm.trans hopen
    have hz₁ := hz.opened ha hnext hopened hopen
    -- Classifying the segment that is left moves it between lists and does nothing else.
    obtain ⟨dirty, rfl⟩ := classify_eq hclassify
    exact hz₁.of_kept rfl (fun _ => rfl) (fun _ => rfl) fun _ => id

/-! ## Runs -/

/-- A request for a block keeps an area sound and its sections with their logs. -/
theorem Zoned.allocate (ha : a.Sound) (hz : a.Zoned) {log : Option Log} {now : ℕ}
    {r : Outcome Address} (h : a.allocate log now = .ok (r, a')) : a'.Zoned := by
  refine (keeps_allocate (I := fun a => a.Sound ∧ a.Zoned) (fun ha => ha.1.geometry) ?_ ?_ ⟨ha, hz⟩
    h).2
  · rintro a a' log r ⟨ha, hz⟩ hmoved
    refine ⟨?_, hz.advance ha hmoved⟩
    rcases ha.advance log with hstay | ⟨a₁, hmove, ha₁, -⟩
    · cases hstay.symm.trans hmoved
      exact ha
    · cases hmove.symm.trans hmoved
      exact ha₁
  · rintro a log changed table ⟨ha, hz⟩ hnext htable
    rcases ha.fill_spec hnext now with htrap | ⟨table', htable', hfilled⟩
    · rw [htrap] at htable
      cases htable
    · cases htable'.symm.trans htable
      exact ⟨hfilled.sound ha hnext, hz.of_kept rfl hfilled.segment
        (SegmentTable.log_of_fill htable) fun _ => id⟩

/-- A command that files no segment under another log keeps the sections with their logs. -/
theorem Zoned.command (ha : a.Sound) (hz : a.Zoned) {command : Command}
    (hcommand : ∀ seg log, command ≠ .setLog seg log) {written : Option Address}
    (h : command.run a = .ok (written, a')) : a'.Zoned := by
  cases command with
  | allocate log now =>
    obtain ⟨⟨r, a₁⟩, hrun, h⟩ := Guarded.bind_eq_ok.mp h
    have hz₁ := hz.allocate ha hrun
    cases r <;> cases h <;> exact hz₁
  | invalidate addr =>
    obtain ⟨⟨r, a₁⟩, hrun, h⟩ := Guarded.bind_eq_ok.mp h
    obtain ⟨_, table, dirty, hinvalidate, -, -, hlog, -⟩ := ha.invalidate addr
    cases hinvalidate.symm.trans hrun
    cases h
    exact hz.of_kept rfl (fun _ => rfl) hlog fun _ => id
  | checkpoint =>
    obtain ⟨⟨n, a₁⟩, hrun, h⟩ := Guarded.bind_eq_ok.mp h
    obtain ⟨m, a₂, hcheckpoint, hspec⟩ := ha.checkpoint
    cases hcheckpoint.symm.trans hrun
    cases h
    refine hz.of_kept hspec.geometry (fun l => by rw [hspec.heads]) (fun s => ?_)
      fun s hs => ((hspec.used s).mp hs).1
    rw [hspec.table, (SegmentTable.record_save a.table s).2.2]
  | search trigger log reuse =>
    obtain ⟨⟨r, a₁⟩, hrun, h⟩ := Guarded.bind_eq_ok.mp h
    cases h
    obtain ⟨hsearched, -⟩ := ha.findVictim hrun
    refine hz.of_kept hsearched.geometry (fun l => by rw [hsearched.heads])
      (fun s => by rw [hsearched.record]) fun s => ?_
    unfold isUsed
    rw [hsearched.free]
    exact id
  | setLog seg log => exact absurd rfl (hcommand seg log)
  | setMtime seg mtime =>
    obtain ⟨a₁, hrun, h⟩ := Guarded.bind_eq_ok.mp h
    cases h
    obtain ⟨table, hupdate, hrun⟩ := Guarded.bind_eq_ok.mp hrun
    cases hrun
    have hlog := SegmentTable.log_of_update (f := fun s => { s with mtime }) (fun _ => rfl) hupdate
    exact hz.of_kept rfl (fun _ => rfl) hlog fun _ => id
  | claim _ | setCursor _ _ | setAgeBounds _ _ =>
    cases h
    exact hz.of_kept rfl (fun _ => rfl) (fun _ => rfl) fun _ => id

/-- Runs in which no segment is filed under another log keep the sections with their logs. -/
theorem Run.zoned {events : List Event} (h : Run a events a') (ha : a.Sound) (hz : a.Zoned)
    (hevents : ∀ e ∈ events, ∀ seg log, e.command ≠ .setLog seg log) : a'.Zoned := by
  -- A step needs the area sound, so soundness is carried along.
  induction h with
  | nil => exact hz
  | cons command written admissible ran rest ih =>
    have hstep := Command.spec ha admissible ran
    have hz₁ := hz.command ha (hevents _ List.mem_cons_self) ran
    exact ih hstep.sound hz₁ fun e he => hevents e (List.mem_cons_of_mem _ he)

/-! ## Created areas -/

/-- Opening a segment puts its section into use. -/
theorem Opened.usedSections (h : a.Opened log seg a') (ha : a.Books) :
    a'.free.usedSections.toFinset =
      insert (a.geometry.sectionOf seg) a.free.usedSections.toFinset := by
  ext sec
  rw [Finset.mem_insert, Bitmap.mem_toFinset, Bitmap.mem_toFinset, h.books.free.section_used,
    ha.free.section_used, h.geometry]
  constructor
  · rintro ⟨s, hs, hin⟩
    rcases (h.used s).mp hin with rfl | hin
    · exact Or.inl hs.symm
    · exact Or.inr ⟨s, hs, hin⟩
  · rintro (rfl | ⟨s, hs, hin⟩)
    · exact ⟨seg, rfl, (h.used seg).mpr (Or.inl rfl)⟩
    · exact ⟨s, hs, (h.used s).mpr (Or.inr hin)⟩

/-- Opening a segment of a free section leaves one free section less. -/
theorem Opened.freeSections (h : a.Opened log seg a') (ha : a.Books)
    (hfree : a.free.usedSections.contains (a.geometry.sectionOf seg) = false) :
    a'.free.freeSections + 1 = a.free.freeSections := by
  have hcard : a'.free.usedSections.toFinset.card = a.free.usedSections.toFinset.card + 1 := by
    rw [h.usedSections ha, Finset.card_insert_of_notMem (by simp [hfree])]
  have hbefore := ha.free.free_sections
  have hafter := h.books.free.free_sections
  rw [h.geometry] at hafter
  omega

/-- Opening a segment of a section in use leaves as many free sections. -/
theorem Opened.freeSections_of_used (h : a.Opened log seg a') (ha : a.Books)
    (hused : a.free.usedSections.contains (a.geometry.sectionOf seg) = true) :
    a'.free.freeSections = a.free.freeSections := by
  have hcard : a'.free.usedSections.toFinset.card = a.free.usedSections.toFinset.card := by
    rw [h.usedSections ha, Finset.insert_eq_of_mem (by simp [hused])]
  have hbefore := ha.free.free_sections
  have hafter := h.books.free.free_sections
  rw [h.geometry] at hafter
  omega

/-- If no free section is found, none is counted. -/
theorem Books.freeSections_eq_zero (ha : a.Books) {hint : ℕ}
    (hfind : a.free.find? a.geometry hint = none) : a.free.freeSections = 0 := by
  have hall : a.free.usedSections.toFinset = Finset.range a.geometry.sections := by
    ext sec
    rw [Bitmap.mem_toFinset, Finset.mem_range]
    refine ⟨fun h => ?_, FreeMap.find?_eq_none ha.geometry hfind sec⟩
    rw [← ha.free.sections_size]
    exact Bitmap.lt_size_of_contains h
  have hcount := ha.free.free_sections
  rw [hall, Finset.card_range] at hcount
  omega

/-- The logs of a list open their first segments exactly when there is a free section for each; then
each has its segment filed under it if the other logs have. -/
theorem Opening.openLogs_spec : ∀ {rest : List Log} {a : Area} (hint : ℕ), a.Opening rest →
    rest.Nodup →
    (∀ log, log ∉ rest → (a.table.record (a.heads.get log).segment).log = some log) →
    (∃ a', a.openLogs rest hint = .ok (.ok a') ∧ rest.length ≤ a.free.freeSections ∧
        ∀ log, (a'.table.record (a'.heads.get log).segment).log = some log) ∨
      a.openLogs rest hint = .ok (.error .noSpace) ∧ a.free.freeSections < rest.length
  | [], a, hint, _, _, hfiled => Or.inl ⟨a, rfl, Nat.zero_le _, fun log => hfiled log (by simp)⟩
  | log :: rest, a, hint, ha, hnodup, hfiled => by
    unfold Area.openLogs
    cases hfind : a.free.find? a.geometry hint with
    | none =>
      have hnone := ha.freeSections_eq_zero hfind
      refine Or.inr ⟨rfl, ?_⟩
      rw [List.length_cons]
      omega
    | some sec =>
      obtain ⟨hsec, hfree⟩ := FreeMap.find?_eq_some ha.geometry hfind
      have hsecOf := Geometry.sectionOf_firstSegment ha.geometry sec
      have hseg := Geometry.firstSegment_lt ha.geometry hsec
      have hunused := ha.unused_of_section hfree hsecOf
      obtain ⟨a₁, hopen, ha₁⟩ := ha.openSegment hnodup hsec hfree
      obtain ⟨a₂, hopen', hopened⟩ := openSegment_spec ha.toBooks log hseg
      cases hopen'.symm.trans hopen
      have hless := hopened.freeSections ha.toBooks (by rw [hsecOf]; exact hfree)
      -- The log that has opened its segment joins those whose open segment is filed under them.
      have hfiled₁ : ∀ l, l ∉ rest →
          (a₁.table.record (a₁.heads.get l).segment).log = some l := by
        intro l hl
        refine hopened.filed hopen hunused fun hne => ?_
        have hold : l ∉ log :: rest := by simp [hne, hl]
        exact ⟨(ha.heads l hold).used, hfiled l hold⟩
      dsimp only
      rw [hopen, Guarded.ok_bind, List.length_cons]
      rcases ha₁.openLogs_spec (sec + 1) (List.nodup_cons.mp hnodup).2 hfiled₁ with
        ⟨a', hrest, hle, hall⟩ | ⟨hrest, hlt⟩
      · exact Or.inl ⟨a', hrest, by omega, hall⟩
      · exact Or.inr ⟨hrest, by omega⟩

/-- An area is created from an accepted geometry of six sections or more, and the open segment of
each log is filed under it then; from other layouts the creation is refused. -/
theorem create_spec (l : Layout) :
    (∃ a, create l = .ok (.ok a) ∧ (∃ g, l.geometry = .ok g ∧ 6 ≤ g.sections) ∧
        ∀ log, (a.table.record (a.heads.get log).segment).log = some log) ∨
      (∃ status, create l = .ok (.error status)) ∧
        ¬∃ g, l.geometry = .ok g ∧ 6 ≤ g.sections := by
  unfold create
  cases hgeometry : l.geometry with
  | error status =>
    refine Or.inr ⟨⟨status, rfl⟩, ?_⟩
    rintro ⟨g, hg, -⟩
    cases hg
  | ok g =>
    obtain ⟨-, hg⟩ := Geometry.make_eq_ok_iff.mp hgeometry
    dsimp only
    rcases (opening_start hg (max l.searchLimit 1)).openLogs_spec 0 (by decide)
      fun log hlog => absurd (Log.mem_all log) hlog with ⟨a, hopen, hle, hfiled⟩ | ⟨hopen, hlt⟩
    · exact Or.inl ⟨a, hopen, ⟨g, rfl, hle⟩, hfiled⟩
    · refine Or.inr ⟨⟨.noSpace, hopen⟩, ?_⟩
      rintro ⟨g', hg', hle⟩
      cases hg'
      exact absurd hle (Nat.not_le_of_lt hlt)

/-- The sections of a created area belong to the logs. -/
theorem create_zoned {l : Layout} (h : create l = .ok (.ok a)) : a.Zoned := by
  have ha := opening_of_create h
  have hnil : ∀ log : Log, log ∉ [] := fun _ => List.not_mem_nil
  -- The segments in use are the open ones, and they lie in different sections.
  have halone : ∀ log seg, a.isUsed seg = true →
      a.geometry.sectionOf seg = a.geometry.sectionOf (a.heads.get log).segment →
      seg = (a.heads.get log).segment := by
    intro log seg hin hsec
    obtain ⟨log', -, rfl⟩ := ha.opened seg hin
    rw [ha.apart log' log (hnil _) (hnil _) hsec]
  refine ⟨?_, ?_, ?_⟩
  · rcases create_spec l with ⟨a₁, hcreate, -, hfiled⟩ | ⟨⟨status, hcreate⟩, -⟩
    · cases hcreate.symm.trans h
      exact hfiled
    · rw [hcreate] at h
      cases h
  · intro log seg hlt hsec
    rw [← Bool.not_eq_true]
    intro hin
    have hsame := halone log seg hin hsec
    omega
  · intro seg seg' hin hin' hsec
    obtain ⟨log, -, rfl⟩ := ha.opened seg hin
    rw [halone log seg' hin' hsec.symm]

/-! ## Logs and sections in every run -/

/-- Each log has a section of its own, of which it has written the part before its head, and every
other section in use belongs to one log. -/
structure LogsApart (a : Area) : Prop extends Zoned a where
  /-- The open segments lie in different sections. -/
  apart : Function.Injective fun log => a.geometry.sectionOf (a.heads.get log).segment
  /-- The open segment of a log is in use. -/
  used : ∀ log, a.isUsed (a.heads.get log).segment = true
  /-- No block is live in it from the next one on. -/
  dead : ∀ log off, (a.heads.get log).next ≤ off →
    (a.table.record (a.heads.get log).segment).isLive off = false

/-- A sound area whose sections belong to logs has a section for each log. -/
theorem Zoned.logsApart (hz : a.Zoned) (ha : a.Sound) : a.LogsApart where
  toZoned := hz
  apart log log' h := ha.apart log log' h
  used log := (ha.heads log).used
  dead log := (ha.heads log).dead

/-- Creating an area never traps. It succeeds exactly for an accepted geometry of six sections or
more, and in every area that a run from there reaches, unless segments are filed under other logs on
request, each log has a section of its own and every section in use belongs to one log. -/
theorem sections_belong_to_logs (l : Layout) :
    (∃ r, create l = .ok r ∧
      ((∃ a₀, r = .ok a₀) ↔ ∃ g, l.geometry = .ok g ∧ 6 ≤ g.sections)) ∧
      ∀ a₀ events a, create l = .ok (.ok a₀) → Run a₀ events a →
        (∀ e ∈ events, ∀ seg log, e.command ≠ .setLog seg log) → a.LogsApart := by
  constructor
  · rcases create_spec l with ⟨a, hcreate, haccepted, -⟩ | ⟨⟨status, hcreate⟩, hrefused⟩
    · exact ⟨_, hcreate, iff_of_true ⟨a, rfl⟩ haccepted⟩
    · refine ⟨_, hcreate, iff_of_false ?_ hrefused⟩
      rintro ⟨a₀, h⟩
      cases h
  · intro a₀ events a hcreate hrun hevents
    have ha₀ := create_sound hcreate
    exact (hrun.zoned ha₀ (create_zoned hcreate) hevents).logsApart (hrun.sound ha₀).1

/-- A layout of seven sections, each of two segments of two blocks. -/
def pairedLayout : Layout :=
  { segmentBits := 1, segmentsPerSection := 2, segments := 14, mainStart := 64 }

/-- A log that has moved on inside its section, behind a segment that a checkpoint has freed, shares
it with no other. -/
theorem sections_belong_to_logs_moved : ∃ a₀ events a, create pairedLayout = .ok (.ok a₀) ∧
    Run a₀ events a ∧ (a.heads.get Log.hotData).segment = 1 ∧ a.isUsed 0 = false ∧ a.LogsApart := by
  obtain ⟨a₀, events, a, hcreate, hrun, h⟩ := Run.of_reaches pairedLayout
    [.allocate (some Log.hotData) 5, .allocate (some Log.hotData) 6, .invalidate 64, .invalidate 65,
      .checkpoint]
    (fun events a => events.all (fun e => !e.command.refiles) &&
      (a.heads.get Log.hotData).segment = 1 && !a.isUsed 0) (by decide +kernel)
  simp only [Bool.and_eq_true, List.all_eq_true, decide_eq_true_eq, Bool.not_eq_true'] at h
  exact ⟨a₀, events, a, hcreate, hrun, h.1.2, h.2, (sections_belong_to_logs pairedLayout).2 a₀ events
    a hcreate hrun fun e he => Command.ne_setLog (h.1.1 e he)⟩

end Area

end Reclaim
