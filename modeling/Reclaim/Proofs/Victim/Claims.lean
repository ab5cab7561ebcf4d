import Reclaim.Proofs.Victim.Safety

/-!
# Claims are exclusive

A section is claimed by one side at a time: by the background as a staged section, or by the
foreground as the section under collection (`Area.Exclusive`). A search for the foreground takes
over the lowest staged section, and scans only when none is staged; one for the background passes
over the section under collection and the staged ones. `Area.Claims` says what each search does to
the claims, and the rest follows by induction on runs: as long as the section under collection is
only ever cleared on request, every staged section has a live block, no log writes into it, and it
is not under collection (`Area.claims_exclusive`).
-/

namespace Reclaim.Area

variable {a a' : Area} {trigger : Trigger} {log : Option Log} {reuse : Reuse} {p : Policy}
  {r : Outcome ℕ} {seg sec : ℕ}

/-- No section is both staged and under collection. -/
def Exclusive (a : Area) : Prop :=
  ∀ sec, a.dirty.staged.contains sec = true → a.claimed ≠ some sec

/-! ## Staged sections -/

/-- With exclusive claims no staged section is busy. -/
theorem Exclusive.isBusySection_eq_false (hex : a.Exclusive) (ha : a.Sound)
    (hstaged : a.dirty.staged.contains sec = true) : a.isBusySection sec = false :=
  isBusySection_eq_false_iff.mpr ⟨ha.staged_closed sec hstaged, hex sec hstaged⟩

/-- With exclusive claims the section that a foreground search takes over is the lowest staged
one. -/
theorem Exclusive.stagedVictim?_eq_some (hex : a.Exclusive) (ha : a.Sound)
    (hstaged : a.dirty.staged.contains sec = true)
    (hlowest : ∀ k < sec, a.dirty.staged.contains k = false) : a.stagedVictim? = some sec := by
  have hmem := Bitmap.mem_toList ha.dirty.staged
  have hsorted := Bitmap.toList_sorted ha.dirty.staged
  have hin : sec ∈ a.dirty.staged.toList := (hmem sec).mpr hstaged
  unfold stagedVictim?
  generalize a.dirty.staged.toList = secs at *
  cases secs with
  | nil => cases hin
  | cons first rest =>
    have hfirst : a.dirty.staged.contains first = true := (hmem first).mp List.mem_cons_self
    have hsame : first = sec := by
      rcases List.mem_cons.mp hin with heq | hrest
      · exact heq.symm
      · have hlt := (List.pairwise_cons.mp hsorted).1 sec hrest
        rw [hlowest first hlt] at hfirst
        cases hfirst
    rw [List.find?_cons_of_pos (by rw [hex.isBusySection_eq_false ha hfirst]; rfl), hsame]

/-- With exclusive claims a foreground search finds a section to take over if one is staged. -/
theorem Exclusive.staged_eq_false (hex : a.Exclusive) (ha : a.Sound)
    (hnone : a.stagedVictim? = none) (sec : ℕ) : a.dirty.staged.contains sec = false := by
  by_contra hstaged
  have hstaged := Bool.eq_true_of_not_eq_false hstaged
  have hmem := (Bitmap.mem_toList ha.dirty.staged sec).mpr hstaged
  have hbusy := List.find?_eq_none.mp hnone sec hmem
  rw [hex.isBusySection_eq_false ha hstaged] at hbusy
  exact hbusy rfl

/-! ## What a search does to the claims -/

/-- What a search that gives a result has done to the claims. -/
inductive Claims (a : Area) (trigger : Trigger) (reuse : Reuse) (r : Outcome ℕ) (a' : Area) : Prop
  /-- The foreground has claimed a section, which is not staged any more. -/
  | foreground (sec : ℕ) (whole : reuse = .wholeSection) (side : trigger = .foreground)
    (answer : r = .ok (a.geometry.firstSegment sec)) (victim : a.Victim sec)
    (claimed : a'.claimed = some sec)
    (staged : ∀ k, a'.dirty.staged.contains k = (!decide (k = sec) && a.dirty.staged.contains k))
  /-- The background has staged a section that was not staged. -/
  | background (sec : ℕ) (whole : reuse = .wholeSection) (side : trigger = .background)
    (answer : r = .ok (a.geometry.firstSegment sec)) (victim : a.Victim sec)
    (unstaged : a.dirty.staged.contains sec = false) (claimed : a'.claimed = a.claimed)
    (staged : ∀ k, a'.dirty.staged.contains k = (decide (k = sec) || a.dirty.staged.contains k))
  /-- Nothing has been claimed: a segment is to be reused in place, or there is no victim. -/
  | neither (claimed : a'.claimed = a.claimed) (staged : a'.dirty.staged = a.dirty.staged)
    (answer : ∀ start, r = .ok start →
      reuse = .slots ∧ a.isOpenSection (a.geometry.sectionOf start) = false)

/-- The best candidate of a whole scan is a candidate. -/
theorem Sound.candidate_of_fullScan (ha : a.Sound) {bound : ℕ} {f : Found}
    (hscan : a.fullScan p trigger bound = .ok f) (hbest : f.best = some seg) :
    a.Candidate p trigger seg := by
  rcases (scan_spec ha.tallied rfl hscan).best seg hbest with hnone | hcandidate
  · cases hnone
  · exact hcandidate

/-- A search that answers with no victim and leaves the claims alone. -/
theorem claims_of_unavailable (hclaimed : a'.claimed = a.claimed)
    (hstaged : a'.dirty.staged = a.dirty.staged) :
    a.Claims trigger reuse (.error .unavailable) a' := by
  refine .neither hclaimed hstaged ?_
  intro start hstart
  cases hstart

/-- Taking over the lowest staged section leaves it under collection and not staged. -/
theorem Sound.claims_of_takeover (ha : a.Sound) (hex : a.Exclusive) {present : Bool}
    {dirty : DirtyLists} (lowest : a.stagedVictim? = some sec)
    (unstaged : a.dirty.unstage sec = .ok (present, dirty)) :
    a.Claims .foreground .wholeSection (.ok (a.geometry.firstSegment sec))
      { a with dirty, claimed := some (a.geometry.sectionOf (a.geometry.firstSegment sec)) } := by
  have hstaged : a.dirty.staged.contains sec = true :=
    (Bitmap.mem_toList ha.dirty.staged sec).mp (List.mem_of_find?_eq_some lowest)
  obtain ⟨hvictim, -⟩ := ha.unstage hstaged (hex.isBusySection_eq_false ha hstaged)
  obtain ⟨dirty', hunstage, -, -, hkept⟩ :=
    DirtyLists.unstage_spec ha.dirty (hvictim.lt_sections ha)
  cases hunstage.symm.trans unstaged
  refine .foreground sec rfl rfl rfl hvictim ?_ hkept
  exact congrArg some (Geometry.sectionOf_firstSegment ha.geometry sec)

/-- Claiming the section of a candidate after a scan marks it for the side that searched. -/
theorem Candidate.claims (ha : a.Sound) (hex : a.Exclusive) {f : Found}
    (hcandidate : a.Candidate (a.policy trigger log reuse) trigger seg)
    (hvictim : a.Victim (a.geometry.sectionOf seg))
    (hnone : reuse = .wholeSection → trigger = .foreground → a.stagedVictim? = none)
    (h : (a.scanned (a.policy trigger log reuse) f).claim (a.policy trigger log reuse) trigger seg =
      .ok (r, a')) : a.Claims trigger reuse r a' := by
  have hstart := congrArg (Except.ok (ε := Status))
    (Geometry.sub_mod_eq_firstSegment a.geometry seg)
  obtain ⟨rfl, ⟨hreuse, rfl⟩ | ⟨hreuse, rfl, rfl⟩ | ⟨hreuse, rfl, _, _, hstage, rfl⟩⟩ :=
    claim_cases h
  · -- Slots are reused one by one, so the answer is the segment itself.
    obtain rfl : reuse = .slots := hreuse
    refine .neither rfl rfl fun start hanswer => ⟨rfl, ?_⟩
    obtain rfl : seg - seg % 1 = start := Except.ok.inj hanswer
    rw [Nat.mod_one, Nat.sub_zero]
    exact hvictim.closed
  · obtain rfl : reuse = .wholeSection := hreuse
    refine .foreground (a.geometry.sectionOf seg) rfl rfl hstart hvictim rfl fun k => ?_
    -- The search has scanned, so no section is staged.
    show a.dirty.staged.contains k = _
    rw [hex.staged_eq_false ha (hnone rfl rfl) k, Bool.and_false]
  · obtain rfl : reuse = .wholeSection := hreuse
    have hunstaged : a.dirty.staged.contains (a.geometry.sectionOf seg) = false := by
      have heligible := hcandidate.eligible
      unfold isPassedOver at heligible
      simpa using (Bool.or_eq_false_iff.mp heligible).2
    obtain ⟨dirty, hstage', -, -, hstaged⟩ :=
      DirtyLists.stage_spec ha.dirty (hvictim.lt_sections ha)
    cases hstage'.symm.trans hstage
    exact .background (a.geometry.sectionOf seg) rfl rfl hstart hvictim hunstaged rfl hstaged

/-- What a search does to the claims of a sound area in which they are exclusive. -/
theorem Sound.claims_of_findVictim (ha : a.Sound) (hex : a.Exclusive)
    (h : a.findVictim trigger log reuse = .ok (r, a')) : a.Claims trigger reuse r a' := by
  have hscanned : (a.policy trigger log reuse).scanned ≠ .prefree := by
    cases reuse <;> cases log <;> simp [policy, Policy.start, DirtyClass.ofLog?]
  cases answered_of_findVictim h with
  | idle _ => exact claims_of_unavailable rfl rfl
  | fruitless _ _ _ _ => exact claims_of_unavailable rfl rfl
  | takeover takes lowest unstaged =>
    obtain ⟨-, rfl, rfl, -⟩ := takes
    exact ha.claims_of_takeover hex lowest unstaged
  | found listed scans scan best claim =>
    have hcandidate := ha.candidate_of_fullScan scan best
    refine hcandidate.claims ha hex (hcandidate.victim ha hscanned) ?_ claim
    rintro rfl rfl
    by_contra hsome
    exact scans ⟨listed, rfl, rfl, hsome⟩

/-! ## Runs -/

/-- The commands of a manager at work: it writes, drops, frees and searches, and clears the section
under collection. Cursors, logs and ages are set by nobody. -/
def Command.Routine : Command → Prop
  | .allocate .. | .invalidate _ | .checkpoint | .search .. => True
  | .claim sec => sec = none
  | .setCursor .. | .setLog .. | .setMtime .. | .setAgeBounds .. => False

instance (command : Command) : Decidable command.Routine :=
  match command with
  | .allocate .. | .invalidate _ | .checkpoint | .search .. => .isTrue trivial
  | .claim sec => inferInstanceAs (Decidable (sec = none))
  | .setCursor .. | .setLog .. | .setMtime .. | .setAgeBounds .. => .isFalse id

/-- An operation that stages and claims nothing keeps the claims exclusive. -/
theorem Framed.exclusive (h : a.Framed a') (hex : a.Exclusive) : a'.Exclusive := by
  intro sec hstaged
  rw [h.claimed]
  exact hex sec (h.staged sec hstaged)

/-- A search keeps the claims exclusive. -/
theorem Claims.exclusive (h : a.Claims trigger reuse r a') (hex : a.Exclusive) : a'.Exclusive := by
  intro k hk
  cases h with
  | foreground sec _ _ _ _ claimed staged =>
    -- The section that is claimed is not staged any more.
    rw [staged, Bool.and_eq_true, Bool.not_eq_true', decide_eq_false_iff_not] at hk
    rw [claimed]
    rintro hsame
    exact hk.1 (Option.some.inj hsame).symm
  | background sec _ _ _ victim _ claimed staged =>
    rw [claimed]
    rw [staged, Bool.or_eq_true, decide_eq_true_iff] at hk
    rcases hk with rfl | hk
    · exact victim.unclaimed
    · exact hex k hk
  | neither claimed staged _ =>
    rw [claimed]
    rw [staged] at hk
    exact hex k hk

/-- What a command of a manager at work does to claims and cursors: it leaves them alone, or clears
the section under collection, or it is a search. -/
inductive AtWork (a a' : Area) : Prop
  /-- Neither is touched. -/
  | framed (framed : a.Framed a')
  /-- The section under collection is cleared. -/
  | cleared (same : a' = { a with claimed := none })
  /-- A victim is searched. -/
  | searched {trigger : Trigger} {log : Option Log} {reuse : Reuse} {r : Outcome ℕ}
      (search : a.findVictim trigger log reuse = .ok (r, a'))

/-- A command of a manager at work does one of the three. -/
theorem Command.Routine.atWork {command : Command} (hroutine : command.Routine)
    {written : Option Address} (h : command.run a = .ok (written, a')) : a.AtWork a' := by
  cases command with
  | allocate log now =>
    obtain ⟨⟨r, a₁⟩, hrun, h⟩ := Guarded.bind_eq_ok.mp h
    have hframed := framed_of_allocate hrun
    cases r with
    | error status =>
      cases h
      exact .framed hframed
    | ok addr =>
      cases h
      exact .framed hframed
  | invalidate addr =>
    obtain ⟨⟨r, a₁⟩, hrun, h⟩ := Guarded.bind_eq_ok.mp h
    cases h
    exact .framed (framed_of_invalidate hrun)
  | checkpoint =>
    obtain ⟨⟨r, a₁⟩, hrun, h⟩ := Guarded.bind_eq_ok.mp h
    cases h
    exact .framed (framed_of_checkpoint hrun)
  | search trigger log reuse =>
    obtain ⟨⟨r, a₁⟩, hrun, h⟩ := Guarded.bind_eq_ok.mp h
    cases h
    exact .searched hrun
  | claim sec =>
    cases h
    obtain rfl : sec = none := hroutine
    exact .cleared rfl
  | setCursor _ _ => exact hroutine.elim
  | setLog _ _ => exact hroutine.elim
  | setMtime _ _ => exact hroutine.elim
  | setAgeBounds _ _ => exact hroutine.elim

/-- A manager at work keeps the claims exclusive. -/
theorem AtWork.exclusive (h : a.AtWork a') (ha : a.Sound) (hex : a.Exclusive) : a'.Exclusive := by
  cases h with
  | framed framed => exact framed.exclusive hex
  | cleared same =>
    rw [same]
    exact fun _ _ => nofun
  | searched search => exact (ha.claims_of_findVictim hex search).exclusive hex

/-- A manager at work keeps the cursors in the area. -/
theorem AtWork.cursors_lt (h : a.AtWork a')
    (hcursors : ∀ ranking, a.cursors.get ranking < a.geometry.segments) (ranking : Ranking) :
    a'.cursors.get ranking < a'.geometry.segments := by
  cases h with
  | framed framed =>
    rw [framed.cursors, framed.geometry]
    exact hcursors ranking
  | cleared same =>
    rw [same]
    exact hcursors ranking
  | searched search =>
    rw [(settings_of_findVictim search).1]
    exact cursors_lt_of_findVictim hcursors search ranking

/-- A run of a manager at work keeps the claims exclusive and the cursors in the area. -/
theorem Run.exclusive {events : List Event} (h : Run a events a') (ha : a.Sound)
    (hex : a.Exclusive) (hcursors : ∀ ranking, a.cursors.get ranking < a.geometry.segments)
    (hroutine : ∀ e ∈ events, e.command.Routine) :
    a'.Exclusive ∧ ∀ ranking, a'.cursors.get ranking < a'.geometry.segments := by
  induction h with
  | nil => exact ⟨hex, hcursors⟩
  | cons command written admissible ran rest ih =>
    have hwork := (hroutine _ List.mem_cons_self).atWork ran
    have hrest := fun e he => hroutine e (List.mem_cons_of_mem _ he)
    exact ih (Command.spec ha admissible ran).sound (hwork.exclusive ha hex)
      (hwork.cursors_lt hcursors) hrest

/-- Nothing is claimed in a created area. -/
theorem exclusive_of_create {l : Layout} (h : create l = .ok (.ok a)) : a.Exclusive := by
  unfold create at h
  split at h
  · cases h
  · exact (framed_of_openLogs h).exclusive fun _ _ => nofun

/-! ## The main result -/

/-- A foreground search takes over the lowest staged section if a segment is dirty, and moves no
cursor. -/
theorem Exclusive.exists_takeover (hex : a.Exclusive) (ha : a.Sound) (hlimit : 0 < a.searchLimit)
    (hcursors : ∀ ranking, a.cursors.get ranking < a.geometry.segments)
    (hdirty : a.dirty.contains .dirty seg = true) (hstaged : a.dirty.staged.contains sec = true)
    (hlowest : ∀ k < sec, a.dirty.staged.contains k = false) (log : Option Log) :
    ∃ a', a.findVictim .foreground log .wholeSection = .ok (.ok (a.geometry.firstSegment sec), a') ∧
      a'.cursors = a.cursors := by
  have hroster := ha.dirty.roster .dirty
  have hlisted : (a.policy .foreground log .wholeSection).budget ≠ 0 := by
    have hmem : seg ∈ (a.dirty.roster .dirty).map.toFinset := Bitmap.mem_toFinset.mpr hdirty
    have hcount : 0 < a.dirty.count .dirty := by
      unfold DirtyLists.count
      rw [hroster.count_eq]
      exact Finset.card_pos.mpr ⟨seg, hmem⟩
    exact Nat.ne_of_gt (Nat.lt_min.mpr ⟨hcount, hlimit⟩)
  have hvictim := hex.stagedVictim?_eq_some ha hstaged hlowest
  have htakes : a.TakesOver .foreground log .wholeSection :=
    ⟨hlisted, rfl, rfl, by rw [hvictim]; nofun⟩
  obtain ⟨-, dirty, hunstage, -⟩ :=
    ha.unstage hstaged (hex.isBusySection_eq_false ha hstaged)
  rw [findVictim_eq_takeover (ha.not_cursorOverflows (hcursors _)) htakes hvictim, hunstage]
  exact ⟨_, rfl, rfl⟩

/-- In an area that a manager at work reaches from a created one, every staged section has a live
block, no log writes into it, and it is not under collection. A search that is to reclaim a whole
section answers with the first segment of such a section inside the area: a search for the
background stages it, and it was not staged before; one for the foreground leaves it under
collection and not staged, and takes over the lowest staged section without moving a cursor whenever
a segment is dirty. A search for slots answers with no segment of an open section and claims
nothing. -/
theorem claims_exclusive {l : Layout} {a₀ a : Area} {events : List Event}
    (hcreate : create l = .ok (.ok a₀)) (hrun : Run a₀ events a)
    (hroutine : ∀ e ∈ events, e.command.Routine) :
    (∀ sec, a.dirty.staged.contains sec = true → a.Victim sec) ∧
    (∀ trigger log start a',
      a.findVictim trigger log .wholeSection = .ok (.ok start, a') →
        let sec := a.geometry.sectionOf start
        start = a.geometry.firstSegment sec ∧ start < a.geometry.segments ∧ a.Victim sec ∧
          (trigger = .background →
            a.dirty.staged.contains sec = false ∧ a'.dirty.staged.contains sec = true) ∧
          (trigger = .foreground →
            a'.claimed = some sec ∧ a'.dirty.staged.contains sec = false)) ∧
    (∀ log seg sec, a.dirty.contains .dirty seg = true → a.dirty.staged.contains sec = true →
      (∀ k < sec, a.dirty.staged.contains k = false) →
        ∃ a', a.findVictim .foreground log .wholeSection =
          .ok (.ok (a.geometry.firstSegment sec), a') ∧ a'.cursors = a.cursors) ∧
    ∀ trigger log r a', a.findVictim trigger log .slots = .ok (r, a') →
      (∀ seg, r = .ok seg → a.isOpenSection (a.geometry.sectionOf seg) = false) ∧
        a'.claimed = a.claimed ∧ a'.dirty.staged = a.dirty.staged := by
  have hsound₀ := create_sound hcreate
  obtain ⟨ha, -⟩ := hrun.sound hsound₀
  obtain ⟨hex, hcursors⟩ := hrun.exclusive hsound₀ (exclusive_of_create hcreate)
    (create_ready hcreate).cursors hroutine
  have hlimit := Reachable.searchLimit_pos ⟨l, a₀, events, hcreate, hrun⟩
  refine ⟨?_, ?_, ?_, ?_⟩
  · intro sec hstaged
    exact ⟨ha.staged_live sec hstaged, ha.staged_closed sec hstaged, hex sec hstaged⟩
  · intro trigger log start a' h
    cases ha.claims_of_findVictim hex h with
    | foreground sec _ side answer victim claimed staged =>
      cases answer
      have hsec := Geometry.sectionOf_firstSegment ha.geometry sec
      refine ⟨by rw [hsec], Geometry.firstSegment_lt ha.geometry (victim.lt_sections ha),
        by rwa [hsec], ?_, ?_⟩
      · rw [side]
        nofun
      · rintro -
        rw [hsec, staged, decide_eq_true rfl]
        exact ⟨claimed, rfl⟩
    | background sec _ side answer victim unstaged _ staged =>
      cases answer
      have hsec := Geometry.sectionOf_firstSegment ha.geometry sec
      refine ⟨by rw [hsec], Geometry.firstSegment_lt ha.geometry (victim.lt_sections ha),
        by rwa [hsec], ?_, ?_⟩
      · rintro -
        rw [hsec, staged, decide_eq_true rfl]
        exact ⟨unstaged, rfl⟩
      · rw [side]
        nofun
    | neither _ _ answer =>
      obtain ⟨hslots, -⟩ := answer start rfl
      cases hslots
  · intro log seg sec hdirty hstaged hlowest
    exact hex.exists_takeover ha hlimit hcursors hdirty hstaged hlowest log
  · intro trigger log r a' h
    cases ha.claims_of_findVictim hex h with
    | foreground _ whole => cases whole
    | background _ whole => cases whole
    | neither claimed staged answer =>
      exact ⟨fun seg hseg => (answer seg hseg).2, claimed, staged⟩

/-- After a background search has staged a section and the foreground has given its own up, the next
foreground search takes the staged section over. -/
theorem claims_exclusive_staged : ∃ a : Area, a.dirty.staged.contains 6 = true ∧ a.Victim 6 ∧
    ∃ a', a.findVictim .foreground none .wholeSection = .ok (.ok 6, a') ∧
      a'.cursors = a.cursors ∧ a'.claimed = some 6 ∧ a'.dirty.staged.contains 6 = false := by
  obtain ⟨a₀, events, a, hcreate, hrun, h⟩ := Run.of_reaches { tinyLayout with segments := 12 }
    [.allocate (some Log.hotData) 5, .allocate (some Log.hotData) 6, .allocate (some Log.hotData) 7,
      .allocate (some Log.hotData) 8, .invalidate 64, .invalidate 77,
      .search .foreground none .wholeSection, .search .background none .wholeSection, .claim none]
    (fun events a => events.all (fun e => decide e.command.Routine) &&
      (a.dirty.contains .dirty 6 && a.dirty.staged.contains 6 &&
        (List.range 6).all (fun k => !a.dirty.staged.contains k) &&
        a.geometry.segmentsPerSection = 1))
    (by decide +kernel)
  simp only [Bool.and_eq_true, decide_eq_true_eq, List.all_eq_true, List.mem_range,
    Bool.not_eq_true'] at h
  obtain ⟨hroutine, ⟨⟨hdirty, hstaged⟩, hlowest⟩, hunit⟩ := h
  have hfirst : a.geometry.firstSegment 6 = 6 := by
    unfold Geometry.firstSegment
    rw [hunit]
  have hsection : a.geometry.sectionOf 6 = 6 := by
    unfold Geometry.sectionOf
    rw [hunit]
  obtain ⟨hvictims, hsearch, htakeover, -⟩ := claims_exclusive hcreate hrun hroutine
  obtain ⟨a', hfind, hcursors⟩ := htakeover none 6 6 hdirty hstaged hlowest
  rw [hfirst] at hfind
  obtain ⟨-, -, -, -, hclaims⟩ := hsearch .foreground none 6 a' hfind
  rw [hsection] at hclaims
  exact ⟨a, hstaged, hvictims 6 hstaged, a', hfind, hcursors, hclaims rfl⟩

end Reclaim.Area
