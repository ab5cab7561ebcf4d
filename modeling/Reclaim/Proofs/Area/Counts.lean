import Reclaim.Proofs.Area.Runs
import Reclaim.Proofs.Area.Tallied

/-!
# The counters of an area in every run

Every command keeps the counters exact (`Tallied.command`), filing any segment of the area under any
log on request included, which runs of admissible commands leave out; so what is meant here are
courses, which leave out nothing. What the counters then are is spelled out in
`CountersExact`. In runs of admissible commands the live blocks of the area are the ones that were
written and not dropped: each address that a command writes was dead, and each that it drops while
it is live dies, so the table counts the writes less these drops (`Run.live_count`). The results are
put together in `counters_exact`.
-/

namespace Reclaim.Area

variable {a a' : Area} {seg : ℕ}

/-! ## Searches -/

/-- The counters stay exact when a segment of the area is claimed. -/
theorem Tallied.claim (ha : a.Tallied) {p : Policy} {trigger : Trigger} {r : Outcome ℕ}
    (hseg : seg < a.geometry.segments) (h : a.claim p trigger seg = .ok (r, a')) : a'.Tallied := by
  unfold Area.claim at h
  dsimp only at h
  split at h
  · cases h
    exact ha
  · cases h
    exact { ha with }
  · have hsec := Geometry.sectionOf_lt ha.geometry hseg
    obtain ⟨dirty, hstage, hdirty, -⟩ := DirtyLists.stage_spec ha.dirty hsec
    rw [hstage, Guarded.ok_bind] at h
    cases h
    exact { ha with dirty := hdirty }

/-- The counters stay exact when the scanned list is searched. -/
theorem Tallied.searchVictim (ha : a.Tallied) {p : Policy} {trigger : Trigger} {r : Outcome ℕ}
    (h : a.searchVictim p trigger = .ok (r, a')) : a'.Tallied := by
  unfold Area.searchVictim at h
  obtain ⟨maxCost, -, h⟩ := Guarded.bind_eq_ok.mp h
  obtain ⟨f, hscan, h⟩ := Guarded.bind_eq_ok.mp h
  have hfound := scan_spec ha rfl hscan
  have htable := SegmentTable.wellFormed_of_records ha.table hfound.records hfound.live
  have ha₁ : ({ a with table := f.table, cursors := a.cursors.set p.ranking f.cursor } :
      Area).Tallied := { ha with table := htable }
  dsimp only at h
  split at h
  · cases h
    exact ha₁
  · next seg hbest =>
    rcases hfound.best seg hbest with hnone | hcandidate
    · cases hnone
    · exact ha₁.claim (DirtyLists.lt_of_contains ha.dirty hcandidate.listed) h

/-- The counters stay exact when a victim is searched. -/
theorem Tallied.findVictim (ha : a.Tallied) {trigger : Trigger} {log : Option Log} {reuse : Reuse}
    {r : Outcome ℕ} (h : a.findVictim trigger log reuse = .ok (r, a')) : a'.Tallied := by
  rw [Area.findVictim, Guarded.bind_eq_ok] at h
  obtain ⟨p, -, h⟩ := h
  split_ifs at h with hbudget
  · cases h
    exact ha
  · split at h
    · next sec hfind =>
      -- A staged section is one of the area, since the map of staged sections ends with it.
      have hstaged : a.dirty.staged.contains sec = true :=
        (Bitmap.mem_toList ha.dirty.staged sec).mp (List.mem_of_find?_eq_some hfind)
      have hsec : sec < a.geometry.sections := by
        rw [← ha.dirty.staged_size]
        exact Bitmap.lt_size_of_contains hstaged
      obtain ⟨dirty, hunstage, hdirty, -⟩ := DirtyLists.unstage_spec ha.dirty hsec
      rw [hunstage, Guarded.ok_bind] at h
      have ha₁ : ({ a with dirty } : Area).Tallied := { ha with dirty := hdirty }
      exact ha₁.claim (Geometry.firstSegment_lt ha.geometry hsec) h
    · exact ha.searchVictim h

/-! ## Courses -/

/-- Every command keeps the counters exact. -/
theorem Tallied.command (ha : a.Tallied) {command : Command} {written : Option Address}
    (h : command.run a = .ok (written, a')) : a'.Tallied := by
  cases command with
  | allocate log now =>
    obtain ⟨⟨r, a₁⟩, hrun, h⟩ := Guarded.bind_eq_ok.mp h
    have ha₁ := ha.allocate hrun
    cases r <;> cases h <;> exact ha₁
  | invalidate addr =>
    obtain ⟨⟨r, a₁⟩, hrun, h⟩ := Guarded.bind_eq_ok.mp h
    cases h
    exact ha.invalidate hrun
  | checkpoint =>
    obtain ⟨⟨n, a₁⟩, hrun, h⟩ := Guarded.bind_eq_ok.mp h
    cases h
    exact ha.checkpoint hrun
  | search trigger log reuse =>
    obtain ⟨⟨r, a₁⟩, hrun, h⟩ := Guarded.bind_eq_ok.mp h
    cases h
    exact ha.findVictim hrun
  | setLog seg log =>
    obtain ⟨a₁, hrun, h⟩ := Guarded.bind_eq_ok.mp h
    cases h
    exact ha.setLog hrun
  | setMtime seg mtime =>
    obtain ⟨a₁, hrun, h⟩ := Guarded.bind_eq_ok.mp h
    cases h
    exact ha.setMtime hrun
  | setAgeBounds oldest newest =>
    cases h
    exact { ha with table := SegmentTable.wellFormed_of_records ha.table rfl rfl }
  | claim _ | setCursor _ _ =>
    cases h
    exact { ha with }

namespace Course

variable {events : List Event}

/-- Courses keep the counters exact, with the same geometry. -/
theorem tallied (h : Course a events a') (ha : a.Tallied) : a'.Tallied := by
  induction h with
  | nil => exact ha
  | cons command written ran rest ih => exact ih (ha.command ran)

/-- A course that files no segment under another log is a run. -/
theorem run_of_no_setLog (h : Course a events a')
    (hevents : ∀ e ∈ events, ∀ seg log, e.command ≠ .setLog seg log) : Run a events a' := by
  refine h.run fun e he => ?_
  have hcommand := hevents e he
  unfold Command.Admissible
  split
  · next seg log hset => exact absurd hset (hcommand seg log)
  · trivial

end Course

/-! ## What the counters count -/

/-- The numbers that are not in a map over `total` numbers are counted by what the members leave. -/
theorem card_clear {b : Bitmap} {total free : ℕ} (hsize : b.size = total)
    (hfree : free + b.toFinset.card = total) :
    free = ((Finset.range total).filter fun i => b.contains i = false).card := by
  -- Members and others make up all the numbers.
  have hsplit := Finset.card_filter_add_card_filter_not (s := Finset.range total)
    fun i => b.contains i = true
  simp only [Bool.not_eq_true, Finset.card_range] at hsplit
  unfold Bitmap.toFinset at hfree
  rw [hsize] at hfree
  omega

/-- Each counter of an area is the number of what it counts. -/
structure CountersExact (a : Area) : Prop where
  /-- A record counts the offsets in its map, of which there are no more than blocks. -/
  records : ∀ seg < a.geometry.segments,
    (a.table.record seg).live = (a.table.record seg).map.card ∧
      (a.table.record seg).live ≤ a.geometry.segmentBlocks
  /-- The table counts the live blocks of all segments. -/
  total : a.table.live = ∑ seg ∈ Finset.range a.geometry.segments, (a.table.record seg).live
  /-- Each list counts its members. -/
  lists : ∀ c, a.dirty.count c = (a.dirty.roster c).map.card
  /-- The free segments are counted. -/
  freeSegments : a.free.freeSegments =
    ((Finset.range a.geometry.segments).filter fun seg =>
      a.free.usedSegments.contains seg = false).card
  /-- A section is free when all of its segments are. -/
  sections : ∀ sec < a.geometry.sections, a.free.usedSections.contains sec = false ↔
    ∀ seg, a.geometry.sectionOf seg = sec → a.free.usedSegments.contains seg = false
  /-- The free sections are counted. -/
  freeSections : a.free.freeSections =
    ((Finset.range a.geometry.sections).filter fun sec =>
      a.free.usedSections.contains sec = false).card

/-- Exact counters count what they should. -/
theorem Tallied.countersExact (ha : a.Tallied) : a.CountersExact where
  records seg hseg := by
    have hrecord := ha.table.records seg hseg
    exact ⟨by rw [hrecord.live_eq, Bitmap.card_eq hrecord.map], Segment.live_le hrecord⟩
  total := ha.table.live_eq
  lists c := by
    have hroster := ha.dirty.roster c
    unfold DirtyLists.count
    rw [hroster.count_eq, Bitmap.card_eq hroster.map]
  freeSegments := card_clear ha.free.segments_size ha.free.free_segments
  sections sec _ := by
    rw [← Bool.not_eq_true, ha.free.section_used]
    simp only [not_exists, not_and, Bool.not_eq_true]
  freeSections := card_clear ha.free.sections_size ha.free.free_sections

/-! ## Writes and drops -/

/-- The addresses of the live blocks. -/
def liveSet (a : Area) : Finset Address :=
  (Finset.range a.geometry.segments).biUnion fun seg =>
    (a.table.record seg).map.toFinset.image fun off => a.geometry.startBlock seg + off

/-- The address of a live block by its segment and its offset. -/
theorem Tallied.exists_of_mem_image (ha : a.Tallied) (hseg : seg < a.geometry.segments)
    {x : Address} (h : x ∈ (a.table.record seg).map.toFinset.image fun off =>
      a.geometry.startBlock seg + off) :
    a.geometry.segmentOf? x = some seg ∧ a.LiveAt x := by
  obtain ⟨off, hoff, rfl⟩ := Finset.mem_image.mp h
  have hlive : (a.table.record seg).isLive off = true := Bitmap.mem_toFinset.mp hoff
  have hlt := Segment.lt_of_isLive (ha.table.records seg hseg) hlive
  exact ⟨Geometry.segmentOf?_block ha.geometry hseg hlt,
    (liveAt_block ha.geometry hseg hlt).mpr hlive⟩

/-- The set of live addresses has an address when the block there is live. -/
theorem Tallied.mem_liveSet (ha : a.Tallied) {x : Address} : x ∈ a.liveSet ↔ a.LiveAt x := by
  unfold liveSet
  rw [Finset.mem_biUnion]
  constructor
  · rintro ⟨seg, hseg, hx⟩
    exact (ha.exists_of_mem_image (Finset.mem_range.mp hseg) hx).2
  · rintro ⟨seg, haddr, hlive⟩
    obtain ⟨hseg, -, hx⟩ := Geometry.eq_block_of_segmentOf? ha.geometry haddr
    exact ⟨seg, Finset.mem_range.mpr hseg,
      Finset.mem_image.mpr ⟨_, Bitmap.mem_toFinset.mpr hlive, hx.symm⟩⟩

/-- The table counts the live addresses. -/
theorem Tallied.card_liveSet (ha : a.Tallied) : a.liveSet.card = a.table.live := by
  unfold liveSet
  rw [ha.table.live_eq, Finset.card_biUnion]
  · refine Finset.sum_congr rfl fun seg hseg => ?_
    rw [Finset.card_image_of_injective _ (add_right_injective _),
      (ha.table.records seg (Finset.mem_range.mp hseg)).live_eq]
  · -- An address lies in one segment, so the segments share none.
    intro seg hseg seg' hseg' hne
    refine Finset.disjoint_left.mpr fun x hx hx' => hne ?_
    have h := (ha.exists_of_mem_image (Finset.mem_range.mp hseg) hx).1
    have h' := (ha.exists_of_mem_image (Finset.mem_range.mp hseg') hx').1
    exact Option.some.inj (h.symm.trans h')

/-- An area that keeps its live blocks counts as many. -/
theorem Tallied.live_eq (ha : a.Tallied) (ha' : a'.Tallied)
    (h : ∀ x, a'.LiveAt x ↔ a.LiveAt x) : a'.table.live = a.table.live := by
  rw [← ha.card_liveSet, ← ha'.card_liveSet]
  congr 1
  ext x
  rw [ha.mem_liveSet, ha'.mem_liveSet, h]

/-- Whether the block at an address is live, as it is looked up. -/
def isLiveAt (a : Area) (addr : Address) : Bool :=
  match a.geometry.segmentOf? addr with
  | some seg => (a.table.record seg).isLive (a.geometry.offsetOf addr)
  | none => false

/-- Looking up a block tells whether it is live. -/
theorem isLiveAt_iff {addr : Address} : a.isLiveAt addr = true ↔ a.LiveAt addr := by
  unfold isLiveAt LiveAt
  cases a.geometry.segmentOf? addr <;> simp

/-- Whether an event has written a block. -/
def Event.writes (e : Event) : Bool := e.written.isSome

/-- Whether an event drops a block that was live. -/
def Event.drops (e : Event) : Bool :=
  match e.command with
  | .invalidate addr => e.before.isLiveAt addr
  | _ => false

/-- A command that writes adds one live block, and one that drops a live block takes one away. -/
theorem Sound.live_count (ha : a.Sound) {command : Command} (hadmissible : command.Admissible a)
    {written : Option Address} (h : command.run a = .ok (written, a')) :
    a'.table.live + (Event.drops ⟨a, command, written, a'⟩).toNat =
      a.table.live + (Event.writes ⟨a, command, written, a'⟩).toNat := by
  have ha' := (Command.spec ha hadmissible h).sound.tallied
  -- A command that neither writes nor drops keeps every block live or dead.
  have hquiet : (∀ x, a'.LiveAt x ↔ a.LiveAt x) → a'.table.live = a.table.live :=
    ha.tallied.live_eq ha'
  cases command with
  | allocate log now =>
    obtain ⟨⟨r, a₁⟩, hrun, h⟩ := Guarded.bind_eq_ok.mp h
    rcases ha.allocate log now with htrap | ⟨status, hrefused⟩ | ⟨addr, a₂, hok, hwrote⟩
    · rw [htrap] at hrun
      cases hrun
    · cases hrefused.symm.trans hrun
      cases h
      rfl
    · cases hok.symm.trans hrun
      cases h
      -- The address that is written was dead, so it is new among the live ones.
      have hdead : addr ∉ a.liveSet := by
        rw [ha.tallied.mem_liveSet]
        exact fun hlive => hwrote.unspent (ha.spent_of_live hlive)
      have hset : a'.liveSet = insert addr a.liveSet := by
        ext x
        rw [Finset.mem_insert, ha'.mem_liveSet, ha.tallied.mem_liveSet, hwrote.live, or_comm]
      show a'.table.live + 0 = a.table.live + 1
      rw [← ha'.card_liveSet, ← ha.tallied.card_liveSet, hset, Finset.card_insert_of_notMem hdead]
  | invalidate addr =>
    obtain ⟨⟨r, a₁⟩, hrun, h⟩ := Guarded.bind_eq_ok.mp h
    cases h
    obtain ⟨-, -, hlive⟩ := ha.invalidate_evolves hrun
    show a'.table.live + (a.isLiveAt addr).toNat = a.table.live
    cases hwas : a.isLiveAt addr with
    | true =>
      have hmem : addr ∈ a.liveSet := ha.tallied.mem_liveSet.mpr (isLiveAt_iff.mp hwas)
      have hset : a'.liveSet = a.liveSet.erase addr := by
        ext x
        rw [Finset.mem_erase, ha'.mem_liveSet, ha.tallied.mem_liveSet, hlive, and_comm]
      rw [← ha'.card_liveSet, ← ha.tallied.card_liveSet, hset]
      exact Finset.card_erase_add_one hmem
    | false =>
      -- A drop of a dead block changes no block.
      refine hquiet fun x => ?_
      rw [hlive, and_iff_left_iff_imp]
      rintro hx rfl
      rw [isLiveAt_iff.mpr hx] at hwas
      cases hwas
  | checkpoint =>
    obtain ⟨⟨n, a₁⟩, hrun, h⟩ := Guarded.bind_eq_ok.mp h
    obtain ⟨m, a₂, hcheckpoint, hspec⟩ := ha.checkpoint
    cases hcheckpoint.symm.trans hrun
    cases h
    exact hquiet fun x => hspec.liveAt_iff
  | search trigger log reuse =>
    obtain ⟨⟨r, a₁⟩, hrun, h⟩ := Guarded.bind_eq_ok.mp h
    cases h
    exact (ha.findVictim hrun).1.live
  | setLog seg log =>
    obtain ⟨a₁, hrun, h⟩ := Guarded.bind_eq_ok.mp h
    obtain ⟨table, dirty, hset, -, hmap⟩ := ha.setLog hadmissible log
    cases hset.symm.trans hrun
    cases h
    have hsame : a.Quiet { a with table, dirty } := ⟨rfl, rfl, rfl, hmap⟩
    exact hquiet fun x => hsame.liveAt_iff
  | setMtime seg mtime =>
    obtain ⟨a₁, hrun, h⟩ := Guarded.bind_eq_ok.mp h
    cases h
    exact hquiet fun x => (ha.setMtime hrun).2.liveAt_iff
  | claim _ | setCursor _ _ | setAgeBounds _ _ =>
    cases h
    rfl

/-- In a run the live blocks grow by the writes and shrink by the drops of live blocks. -/
theorem Run.live_count {events : List Event} (h : Run a events a') (ha : a.Sound) :
    a'.table.live + events.countP Event.drops = a.table.live + events.countP Event.writes := by
  induction h with
  | nil => rfl
  | @cons a a₁ a' events command written admissible ran rest ih =>
    -- The event at the head is counted by its step, the later ones by induction.
    have hstep := ha.live_count admissible ran
    have hrest := ih (Command.spec ha admissible ran).sound
    simp only [List.countP_cons, Bool.toNat] at hstep ⊢
    generalize Event.drops ⟨a, command, written, a₁⟩ = drops at hstep ⊢
    generalize Event.writes ⟨a, command, written, a₁⟩ = writes at hstep ⊢
    cases drops <;> cases writes <;> simp at hstep ⊢ <;> omega

/-- In every area that is reached from a created one by any commands, each counter is exact; and
when no segment has been filed under another log, the live blocks and the drops of live ones make up
the writes. -/
theorem counters_exact {l : Layout} {a₀ : Area} {events : List Event}
    (hcreate : create l = .ok (.ok a₀)) (h : Course a₀ events a) :
    a.CountersExact ∧ ((∀ e ∈ events, ∀ seg log, e.command ≠ .setLog seg log) →
      a.table.live + events.countP Event.drops = events.countP Event.writes) := by
  have ha₀ := create_sound hcreate
  refine ⟨(h.tallied ha₀.tallied).countersExact, fun hevents => ?_⟩
  -- No block of a created area is live.
  have hempty : a₀.table.live = 0 := by
    rw [← ha₀.tallied.card_liveSet, Finset.card_eq_zero]
    refine Finset.eq_empty_of_forall_notMem fun x hx => ?_
    exact not_liveAt_of_create hcreate x (ha₀.tallied.mem_liveSet.mp hx)
  have hcount := (h.run_of_no_setLog hevents).live_count ha₀
  omega

/-- The counters are exact after a free segment has been filed under another log, which makes it
prefree, and two writes and a drop are counted as one live block. -/
theorem counters_exact_filed :
    (∃ a₀ events a, create tinyLayout = .ok (.ok a₀) ∧ Course a₀ events a ∧ a.isUsed 6 = false ∧
      a.dirty.contains .prefree 6 = true ∧ a.CountersExact) ∧
    ∃ a₀ events a, create tinyLayout = .ok (.ok a₀) ∧ Course a₀ events a ∧
      events.countP Event.writes = 2 ∧ events.countP Event.drops = 1 ∧ a.table.live = 1 := by
  constructor
  · obtain ⟨a₀, events, a, hcreate, hcourse, h⟩ := Course.of_leads tinyLayout
      [.setLog 6 (some Log.coldNode)]
      (fun _ a => !a.isUsed 6 && a.dirty.contains .prefree 6) (by decide +kernel)
    rw [Bool.and_eq_true, Bool.not_eq_true'] at h
    exact ⟨a₀, events, a, hcreate, hcourse, h.1, h.2, (counters_exact hcreate hcourse).1⟩
  · obtain ⟨a₀, events, a, hcreate, hcourse, h⟩ := Course.of_leads tinyLayout
      [.allocate (some Log.hotData) 5, .allocate (some Log.hotData) 6, .invalidate 64,
        .invalidate 64]
      (fun events _ => events.all (fun e => !e.command.refiles) &&
        events.countP Event.writes = 2 && events.countP Event.drops = 1) (by decide +kernel)
    simp only [Bool.and_eq_true, List.all_eq_true, decide_eq_true_eq, Bool.not_eq_true'] at h
    obtain ⟨⟨hall, hwrites⟩, hdrops⟩ := h
    have hlive := (counters_exact hcreate hcourse).2 fun e he => Command.ne_setLog (hall e he)
    exact ⟨a₀, events, a, hcreate, hcourse, hwrites, hdrops, by omega⟩

end Reclaim.Area
