import Reclaim.Migration.Run
import Reclaim.Proofs.Migration.Strip

/-!
# What a collection run frees

A run counts a section as freed for every foreground pass that ends well, and its last checkpoint
should then free these sections. A pass over a data segment ends well only if the segment has become
empty, so the passes strip their sections (`collectSection_strips`); over a node segment it ends
well whatever it has left behind. `startRun_frees_dead_nodes` says what follows: a section that was
counted is free in the end exactly when its node segments hold no live block before the last
checkpoint, and the number of free sections rises by as many as were counted if all of them are such
and none was counted twice, which can happen only to sections with node segments.

The filesystem is only asked to change the area by allocating and dropping blocks
(`Backend.WritesOnly`).
-/

namespace Reclaim

variable {σ : Type}

/-- The world in which a run goes on once it holds the lock. -/
def World.locked (w : World σ) : World σ :=
  { w with collector := { w.collector with locked := true } }

/-- The world in which a run goes on once it has begun. -/
def World.begun (w : World σ) : World σ :=
  { w with collector := { w.collector with progress := w.collector.progress.begin.2 } }

/-- The sections that foreground passes were made over, first one first. -/
def RunReport.victims (r : RunReport) (g : Geometry) : List ℕ :=
  (r.passes.filter fun p => p.1 = .foreground).map fun p => g.sectionOf p.2

namespace RunReport

variable {g : Geometry}

/-- A foreground pass adds its section. -/
theorem victims_foreground (t t' : Trigger) (n n' : ℕ) (passes : List (Trigger × ℕ)) (seg : ℕ) :
    (⟨t', n', passes ++ [(.foreground, seg)]⟩ : RunReport).victims g =
      (⟨t, n, passes⟩ : RunReport).victims g ++ [g.sectionOf seg] := by
  simp [victims]

/-- A background pass adds nothing. -/
theorem victims_background (t t' : Trigger) (n n' : ℕ) (passes : List (Trigger × ℕ)) (seg : ℕ) :
    (⟨t', n', passes ++ [(.background, seg)]⟩ : RunReport).victims g =
      (⟨t, n, passes⟩ : RunReport).victims g := by
  simp [victims]

end RunReport

/-- Moving the phase leaves the area as it is. -/
theorem Act.progress_area {f : Progress → Bool × Progress} {w w' : World σ} {moved : Bool}
    (h : Act.progress f w = .ok (moved, w')) : w'.area = w.area := by
  cases h
  rfl

/-- A run begins in the world that `World.begun` says. -/
theorem Act.progress_begin {w w' : World σ} {begun : Bool}
    (h : Act.progress Progress.begin w = .ok (begun, w')) : w' = w.begun := by
  cases h
  rfl

namespace Backend

variable {b : Backend σ} {w w' : World σ}

/-! ## The passes of a run -/

/-- A run so far: sections are counted as freed for foreground passes, and none before the run has
turned to the foreground; those that are counted are stripped. -/
structure Underway (g : Geometry) (r : RunReport) (w : World σ) : Prop where
  /-- The area is sound. -/
  sound : w.area.Sound
  /-- The geometry is that of the run. -/
  geometry : w.area.geometry = g
  /-- In the background no section is counted. -/
  background : r.trigger = .background → r.victims g = []
  /-- Each foreground pass is counted. -/
  freed : (r.victims g).length = r.freed
  /-- The sections that are counted are stripped. -/
  counted : w.area.Counted (r.victims g)

variable {g : Geometry} {r r' : RunReport}

/-- A run stays underway when blocks are written and dropped. -/
theorem Underway.evolves (hr : Underway g r w) (h : w.area.Evolves w'.area)
    (hw' : w'.area.Sound) : Underway g r w' where
  sound := hw'
  geometry := h.geometry.trans hr.geometry
  background := hr.background
  freed := hr.freed
  counted := hr.counted.evolves h hr.sound hw'

/-- A foreground pass over a section that could be collected is counted when it has stripped the
section. -/
theorem Underway.foreground_pass {freed seg : ℕ} {made : List (Trigger × ℕ)}
    (hr : Underway g ⟨.foreground, freed, made⟩ w) (hvictim : w.area.Victim (g.sectionOf seg))
    (h : w.area.Evolves w'.area) (hw' : w'.area.Sound)
    (hstripped : w'.area.Stripped (g.sectionOf seg)) :
    Underway g ⟨.foreground, freed + 1, made ++ [(.foreground, seg)]⟩ w' := by
  refine ⟨hw', h.geometry.trans hr.geometry, nofun, ?_, ?_⟩
  · rw [RunReport.victims_foreground .foreground _ freed, List.length_append, hr.freed]
    rfl
  · rw [RunReport.victims_foreground .foreground _ freed]
    exact hr.counted.concat h hr.sound hw' hvictim hstripped

/-- A background pass counts nothing. -/
theorem Underway.background_pass {freed seg : ℕ} {made : List (Trigger × ℕ)}
    (hr : Underway g ⟨.background, freed, made⟩ w) (h : w.area.Evolves w'.area)
    (hw' : w'.area.Sound) :
    Underway g ⟨.background, freed, made ++ [(.background, seg)]⟩ w' := by
  have hnone := RunReport.victims_background (g := g) .background .background freed freed made seg
  obtain ⟨hsound, hgeometry, hbackground, hfreed, hcounted⟩ := hr.evolves h hw'
  refine ⟨hsound, hgeometry, fun htrigger => ?_, ?_, ?_⟩
  · rw [hnone]
    exact hbackground htrigger
  · rw [hnone]
    exact hfreed
  · rw [hnone]
    exact hcounted

/-- A checkpoint of a run that goes well is one of the area. -/
theorem checkpoint_spec (hb : b.WritesOnly) (hw : w.area.Sound)
    (h : b.checkpoint w = .ok (.ok (), w')) :
    ∃ n, w.area.checkpoint = .ok (n, w'.area) ∧ w.area.Checkpointed n w'.area := by
  unfold checkpoint at h
  obtain ⟨written, w₁, hwrite, h₁⟩ := Act.bind_eq_ok.mp h
  have harea := hb.writeCheckpoint hwrite
  cases written with
  | error status => cases h₁
  | ok _ =>
    obtain ⟨n, w₂, hran, h₂⟩ := Act.bind_eq_ok.mp h₁
    obtain ⟨area, hcheckpoint, hw₂⟩ := Act.onArea_eq_ok.mp hran
    subst w₂
    cases h₂
    rw [harea] at hcheckpoint
    obtain ⟨n', a', hspec, hchecked⟩ := hw.checkpoint
    rw [hspec] at hcheckpoint
    cases hcheckpoint
    exact ⟨_, hspec, hchecked⟩

/-- Turning to the foreground leaves a run underway. -/
theorem escalate_underway (hb : b.WritesOnly) (hr : Underway g r w) {needed : ℕ}
    (h : b.escalate needed r w = .ok ((r', .ok ()), w')) : Underway g r' w' := by
  unfold escalate at h
  obtain ⟨short, w₁, hread, h₁⟩ := Act.bind_eq_ok.mp h
  cases hread
  split_ifs at h₁ with hturn
  · obtain ⟨_, w₂, hphase, h₂⟩ := Act.bind_eq_ok.mp h₁
    have harea₂ := Act.progress_area hphase
    obtain ⟨result, w₃, hcheckpoint, h₃⟩ := Act.bind_eq_ok.mp h₂
    cases result with
    | error status => cases h₃
    | ok _ =>
      obtain ⟨_, w₄, hphase', h₄⟩ := Act.bind_eq_ok.mp h₃
      have harea₄ := Act.progress_area hphase'
      cases h₄
      -- The checkpoint may free sections, but none has been counted yet.
      have hvictims : ({ r with trigger := .foreground } : RunReport).victims g = [] :=
        hr.background hturn.1
      obtain ⟨n, -, hspec⟩ := checkpoint_spec hb (by rw [harea₂]; exact hr.sound) hcheckpoint
      rw [harea₂, ← harea₄] at hspec
      refine ⟨hspec.sound, hspec.geometry.trans hr.geometry, nofun, hr.freed, ?_⟩
      rw [hvictims]
      exact .nil _
  · cases h₁
    exact hr

/-- A pass over a section that a search has chosen leaves a run underway. -/
theorem pass_underway (hb : b.WritesOnly) {w₀ : World σ} (hr : Underway g r w₀) {seg : ℕ}
    (hsearched : w₀.area.Searched w.area) (hvictim : w₀.area.Victim (g.sectionOf seg))
    (h : b.pass r seg w = .ok ((r', .ok ()), w')) : Underway g r' w' := by
  have hsound := hsearched.sound hr.sound
  have hsettled := hsearched.evolves.settled _ (hvictim.settled hr.sound.toBooks)
  have hgeometry := hsearched.geometry.trans hr.geometry
  obtain ⟨trigger, freed, made⟩ := r
  unfold pass at h
  obtain ⟨_, w₁, hphase, h₁⟩ := Act.bind_eq_ok.mp h
  have harea₁ := Act.progress_area hphase
  obtain ⟨result, w₂, hcollect, h₂⟩ := Act.bind_eq_ok.mp h₁
  obtain ⟨_, w₃, hphase', h₃⟩ := Act.bind_eq_ok.mp h₂
  have harea₃ := Act.progress_area hphase'
  rw [← harea₁] at hsound hsettled hgeometry
  have hevolves₁ : w₀.area.Evolves w₁.area := by
    rw [harea₁]
    exact hsearched.evolves
  cases trigger with
  | foreground =>
    cases result with
    | error status => cases h₃
    | ok _ =>
      obtain ⟨_, w₄, hclaim, h₄⟩ := Act.bind_eq_ok.mp h₃
      cases hclaim
      obtain ⟨hsound₂, hevolves, hstripped⟩ := collectSection_strips hb.writes hsound
        (by rw [hgeometry]; exact hsettled) hcollect
      rw [hgeometry] at hstripped
      rw [← harea₃] at hsound₂ hevolves hstripped
      -- The claim is given up before the section is counted.
      have hgiven := hsound₂.searched_of_records rfl rfl w₃.area.cursors none
      have hsound₄ := hgiven.sound hsound₂
      dsimp only at h₄
      split_ifs at h₄ with hfits
      · cases h₄
        exact hr.foreground_pass hvictim ((hevolves₁.trans hevolves).trans hgiven.evolves) hsound₄
          (hstripped.evolves hgiven.evolves hsound₂ hsound₄)
      · cases h₄
  | background =>
    obtain ⟨hsound₂, hevolves⟩ :=
      ((hb.writes w₁.area).collectSection (Act.lasting_area _) _ _ .refl hcollect).evolves hsound
    rw [← harea₃] at hsound₂ hevolves
    have hnext : Underway g ⟨.background, freed, made ++ [(.background, seg)]⟩ w₃ :=
      hr.background_pass (hevolves₁.trans hevolves) hsound₂
    cases result with
    | ok _ =>
      cases h₃
      exact hnext
    | error status =>
      cases status <;> cases h₃
      exact hnext

/-- The passes of a run leave it underway. -/
theorem passes_underway (hb : b.WritesOnly) {needed : ℕ} : ∀ {bound : ℕ} {r : RunReport}
    {w : World σ}, Underway g r w → b.passes needed bound r w = .ok ((r', .ok ()), w') →
      Underway g r' w' := by
  intro bound
  induction bound with
  | zero =>
    intro r w hr h
    cases h
  | succ bound ih =>
    intro r w hr h
    unfold passes at h
    obtain ⟨⟨r₁, escalated⟩, w₁, hescalate, h₁⟩ := Act.bind_eq_ok.mp h
    cases escalated with
    | error status => cases h₁
    | ok _ =>
      have hr₁ := escalate_underway hb hr hescalate
      obtain ⟨found, w₂, hfind, h₂⟩ := Act.bind_eq_ok.mp h₁
      obtain ⟨area, hfound, hw₂⟩ := Act.onArea_eq_ok.mp hfind
      subst w₂
      -- A search that finds nothing ends the passes, and otherwise a pass is made over the victim.
      obtain ⟨hsearched, hchosen⟩ := hr₁.sound.findVictim hfound
      cases found with
      | error status =>
        have hstays : Underway g r₁ { w₁ with area } :=
          hr₁.evolves hsearched.evolves (hsearched.sound hr₁.sound)
        cases status <;> cases h₂
        exact hstays
      | ok seg =>
        have hvictim := (hchosen seg rfl rfl).victim
        rw [hr₁.geometry] at hvictim
        obtain ⟨⟨r₂, passed⟩, w₃, hpass, h₃⟩ := Act.bind_eq_ok.mp h₂
        cases passed with
        | error status => cases h₃
        | ok _ =>
          have hr₂ := pass_underway hb hr₁ hsearched hvictim hpass
          obtain ⟨short, w₄, hread, h₄⟩ := Act.bind_eq_ok.mp h₃
          cases hread
          split_ifs at h₄
          · exact ih hr₂ h₄
          · cases h₄
            exact hr₂

/-! ## The last checkpoint -/

/-- A run that has counted sections as freed ends with a checkpoint. -/
theorem finish_spec (hb : b.WritesOnly) (hr : Underway g r w) {needed n : ℕ}
    (h : b.finish needed r w = .ok (.ok n, w')) (hn : 1 ≤ n) :
    r.freed = n ∧ ∃ k, w.area.checkpoint = .ok (k, w'.area) ∧ w.area.Checkpointed k w'.area := by
  unfold finish at h
  cases htrigger : r.trigger with
  | foreground =>
    rw [htrigger] at h
    obtain ⟨short, w₁, hread, h₁⟩ := Act.bind_eq_ok.mp h
    cases hread
    split_ifs at h₁
    · cases h₁
    · obtain ⟨_, w₂, hphase, h₂⟩ := Act.bind_eq_ok.mp h₁
      have harea := Act.progress_area hphase
      obtain ⟨result, w₃, hcheckpoint, h₃⟩ := Act.bind_eq_ok.mp h₂
      cases result with
      | error status => cases h₃
      | ok _ =>
        cases h₃
        have hspec := checkpoint_spec hb (by rw [harea]; exact hr.sound) hcheckpoint
        rw [harea] at hspec
        exact ⟨rfl, hspec⟩
  | background =>
    -- No section is counted in the background.
    have hfreed := hr.freed
    rw [hr.background htrigger, List.length_nil] at hfreed
    rw [htrigger] at h
    dsimp only at h
    split_ifs at h
    · cases h
      rw [← hfreed] at hn
      exact absurd hn (Nat.not_succ_le_zero 0)
    · cases h

/-- A run that has counted sections as freed has made its passes and written the last checkpoint,
and has given up its claim. -/
theorem run_spec (hb : b.WritesOnly) (hw : w.area.Sound) {needed n : ℕ}
    (h : b.run needed w = .ok ((r, .ok n), w')) (hn : 1 ≤ n) :
    ∃ w₁ w₂ k a, b.checkpointFailed w.begun = .ok (false, w₁) ∧
      b.passes needed (w₁.area.passBound needed) .initial w₁ = .ok ((r, .ok ()), w₂) ∧
      Underway w.area.geometry r w₂ ∧ r.freed = n ∧ w₂.area.checkpoint = .ok (k, a) ∧
      w₂.area.Checkpointed k a ∧ w'.area = { a with claimed := none } := by
  unfold run at h
  obtain ⟨begun, w₁, hbegin, h₁⟩ := Act.bind_eq_ok.mp h
  obtain rfl := Act.progress_begin hbegin
  cases begun with
  | false => cases h₁
  | true =>
    obtain ⟨⟨report, result⟩, w₂, hbody, h₂⟩ := Act.bind_eq_ok.mp h₁
    obtain ⟨_, w₃, hclaim, h₃⟩ := Act.bind_eq_ok.mp h₂
    cases hclaim
    obtain ⟨_, w₄, hcomplete, h₄⟩ := Act.bind_eq_ok.mp h₃
    have harea₄ := Act.progress_area hcomplete
    cases h₄
    unfold runBody at hbody
    obtain ⟨failed, w₅, hfailed, h₅⟩ := Act.bind_eq_ok.mp hbody
    obtain ⟨hsound, hevolves⟩ :=
      ((hb.writes w.area).checkpointFailed (w := w.begun) .refl hfailed).evolves hw
    cases failed with
    | true => cases h₅
    | false =>
      obtain ⟨bound, w₆, hbound, h₆⟩ := Act.bind_eq_ok.mp h₅
      cases hbound
      obtain ⟨⟨report, passed⟩, w₇, hpasses, h₇⟩ := Act.bind_eq_ok.mp h₆
      cases passed with
      | error status => cases h₇
      | ok _ =>
        obtain ⟨result, w₈, hfinish, h₈⟩ := Act.bind_eq_ok.mp h₇
        cases h₈
        have hunderway := passes_underway (g := w.area.geometry) hb
          ⟨hsound, hevolves.geometry, fun _ => rfl, rfl, .nil _⟩ hpasses
        obtain ⟨hfreed, k, hcheckpoint, hspec⟩ := finish_spec hb hunderway hfinish hn
        exact ⟨_, w₇, k, w₂.area, hfailed, hpasses, hunderway, hfreed, hcheckpoint, hspec, harea₄⟩

/-- What a run does that ends well with sections counted as freed, begun in a reachable area. As
many foreground passes were made. A section over which one was made is free after the last
checkpoint exactly when none of its node segments held a live block before it, and only a section
with node segments can have been counted twice. If none was, and none of them held a live node, then
the last checkpoint has raised the number of free sections by as many as were counted, and free
sections are not short if those counted made up for it when the passes ended. Nothing less will do,
unless the checkpoint has freed sections that were not counted. -/
theorem startRun_frees_dead_nodes (hb : b.WritesOnly) (harea : w.area.Reachable) {needed n : ℕ}
    (h : b.startRun needed w = .ok (.ok n, w')) (hn : 1 ≤ n) :
    ∃ report w₁ w₂ k a victims, b.checkpointFailed w.locked.begun = .ok (false, w₁) ∧
      b.passes needed (w₁.area.passBound needed) .initial w₁ = .ok ((report, .ok ()), w₂) ∧
      w₂.area.checkpoint = .ok (k, a) ∧ w'.area = { a with claimed := none } ∧
      report.victims w.area.geometry = victims ∧ victims.length = n ∧
      (∀ sec ∈ victims, (w'.area.free.usedSections.contains sec = false ↔ w₂.area.NodesDead sec) ∧
        (¬w₂.area.HasNodes sec → victims.count sec = 1)) ∧
      (victims.Nodup → (∀ sec ∈ victims, w₂.area.NodesDead sec) →
        w₂.area.free.freeSections + n ≤ w'.area.free.freeSections ∧
          (w₂.area.isShort n needed = false → w'.area.isShort 0 needed = false)) ∧
      ((∀ sec ∈ w₂.area.freedSections w'.area, sec ∈ victims) →
        w₂.area.free.freeSections + n ≤ w'.area.free.freeSections →
          victims.Nodup ∧ ∀ sec ∈ victims, w₂.area.NodesDead sec) := by
  unfold startRun at h
  split_ifs at h
  obtain ⟨_, w₁, hlock, h₁⟩ := Act.bind_eq_ok.mp h
  cases hlock
  obtain ⟨⟨report, result⟩, w₂, hrun, h₂⟩ := Act.bind_eq_ok.mp h₁
  obtain ⟨_, w₃, hunlock, h₃⟩ := Act.bind_eq_ok.mp h₂
  cases hunlock
  cases h₃
  obtain ⟨w₄, w₅, k, a, hfailed, hpasses, hunderway, hfreed, hcheckpoint, hspec, hend⟩ :=
    run_spec (w := w.locked) hb harea.sound hrun hn
  have hsound := hunderway.sound
  have hcounted := hunderway.counted
  have hlength : (report.victims w.area.geometry).length = n := hunderway.freed.trans hfreed
  -- A section that was counted is in use before the last checkpoint.
  have hfree := fun sec hsec => hspec.free_iff hsound (hcounted.stripped sec hsec)
  have hmem : ∀ sec ∈ report.victims w.area.geometry,
      sec ∈ w₅.area.freedSections a ↔ w₅.area.NodesDead sec := by
    intro sec hsec
    rw [Area.mem_freedSections, hfree sec hsec]
    exact and_iff_right (hcounted.stripped sec hsec).settled.1
  refine ⟨report, w₄, w₅, k, a, _, hfailed, hpasses, hcheckpoint, hend, rfl, hlength, ?_, ?_, ?_⟩ <;>
    rw [hend]
  · exact fun sec hsec => ⟨hfree sec hsec, hcounted.once sec hsec⟩
  · intro hnodup hdead
    have hle := hspec.freeSections_le hsound hnodup fun sec hsec =>
      (hmem sec hsec).mpr (hdead sec hsec)
    rw [hlength] at hle
    exact ⟨hle, Area.isShort_eq_false_of_freed hspec.geometry hle⟩
  · intro honly hle
    rw [← hlength] at hle
    obtain ⟨hnodup, hall⟩ := hspec.freed_of_freeSections_le hsound honly hle
    exact ⟨hnodup, fun sec hsec => (hmem sec hsec).mp (hall sec hsec)⟩

/-! ## Computed runs -/

/-- Whether a run can be begun, its passes go well, and it ends well in a world, with a test of the
report, of the world before the end, of the number of sections counted and of the last world. -/
def ends (b : Backend σ) (needed : ℕ) (w : World σ)
    (p : RunReport → World σ → ℕ → World σ → Bool) : Bool :=
  match b.checkpointFailed w.locked.begun, b.startRun needed w with
  | .ok (false, w₁), .ok (.ok n, w') =>
    match b.passes needed (w₁.area.passBound needed) .initial w₁ with
    | .ok ((report, .ok ()), w₂) => p report w₂ n w'
    | _ => false
  | _, _ => false

/-- A computed run is a run. -/
theorem of_ends {needed : ℕ} {p : RunReport → World σ → ℕ → World σ → Bool}
    (h : b.ends needed w p = true) :
    ∃ w₁ report w₂ n w', b.checkpointFailed w.locked.begun = .ok (false, w₁) ∧
      b.passes needed (w₁.area.passBound needed) .initial w₁ = .ok ((report, .ok ()), w₂) ∧
      b.startRun needed w = .ok (.ok n, w') ∧ p report w₂ n w' = true := by
  unfold ends at h
  split at h
  · next w₁ n w' hfailed hrun =>
    split at h
    · next report w₂ hpasses => exact ⟨w₁, report, w₂, n, w', hfailed, hpasses, hrun, h⟩
    · cases h
  · cases h

/-- A layout of eight sections, each of one segment of two blocks, with one section in reserve. -/
def crowdedLayout : Layout :=
  { segmentBits := 1, segmentsPerSection := 1, segments := 8, mainStart := 64, reserved := 1 }

/-- What fills a segment with nodes and drops the first one, so that free sections are short. -/
def crowding : List Area.Command :=
  [.allocate (some Log.warmNode) 0, .allocate (some Log.warmNode) 0, .invalidate 72]

/-- A world of one node, whose block is the one that `crowding` leaves, in section 4. -/
def oneNode (a : Area) (faults : List Fault) : World (Volume Empty Unit) :=
  ⟨a, Collector.initial, ⟨[], 1⟩, Volume.oneNode 2 73 4 faults⟩

/-- When the node is moved, its section is free after the run. -/
theorem startRun_frees_dead_nodes_moved :
    ∃ (w w₁ w₂ w' : World (Volume Empty Unit)) (report : RunReport), w.area.Reachable ∧
      (Volume.backend Empty.elim).checkpointFailed w.locked.begun = .ok (false, w₁) ∧
      (Volume.backend Empty.elim).passes 0 (w₁.area.passBound 0) .initial w₁ =
        .ok ((report, .ok ()), w₂) ∧
      (Volume.backend Empty.elim).startRun 0 w = .ok (.ok 1, w') ∧
      report.victims w.area.geometry = [4] ∧ w₂.area.NodesDead 4 ∧
      w'.area.free.usedSections.contains 4 = false := by
  obtain ⟨a₀, events, a, hcreate, hrun, h⟩ := Area.Run.of_reaches crowdedLayout crowding
    (fun _ a => (Volume.backend Empty.elim).ends 0 (oneNode a []) fun report _ n w' =>
      n = 1 && report.victims a.geometry = [4] && w'.area.free.usedSections.contains 4 = false)
    (by decide +kernel)
  obtain ⟨w₁, report, w₂, n, w', hfailed, hpasses, hstart, hends⟩ := of_ends h
  simp only [Bool.and_eq_true, decide_eq_true_eq] at hends
  obtain ⟨⟨rfl, hvictims⟩, hfree⟩ := hends
  have hreachable : (oneNode a []).area.Reachable := ⟨_, _, _, hcreate, hrun⟩
  obtain ⟨report', w₃, w₄, -, -, -, hfailed', hpasses', -, -, rfl, -, hcounted, -, -⟩ :=
    startRun_frees_dead_nodes (Volume.backend_writesOnly nofun) hreachable hstart le_rfl
  -- The passes that the theorem speaks of are those that were computed.
  rw [hfailed] at hfailed'
  cases hfailed'
  rw [hpasses] at hpasses'
  cases hpasses'
  have hmem : 4 ∈ report.victims (oneNode a []).area.geometry := by
    rw [show (oneNode a []).area = a from rfl, hvictims]
    exact List.mem_singleton_self 4
  exact ⟨oneNode a [], w₁, w₂, w', report, hreachable, hfailed, hpasses, hstart, hvictims,
    (hcounted 4 hmem).1.mp hfree, hfree⟩

/-- When the node cannot be loaded, its section is counted as freed and is in use after the run. The
last checkpoint leaves the number of free sections as it was, so they are still short. -/
theorem startRun_counts_used_section :
    ∃ (w w₁ w₂ w' : World (Volume Empty Unit)) (report : RunReport), w.area.Reachable ∧
      (Volume.backend Empty.elim).checkpointFailed w.locked.begun = .ok (false, w₁) ∧
      (Volume.backend Empty.elim).passes 0 (w₁.area.passBound 0) .initial w₁ =
        .ok ((report, .ok ()), w₂) ∧
      (Volume.backend Empty.elim).startRun 0 w = .ok (.ok 1, w') ∧
      w₂.area.isShort 1 0 = false ∧ w'.area.isShort 0 0 = true ∧
      w'.area.free.freeSections = w₂.area.free.freeSections ∧
      report.victims w.area.geometry = [4] ∧ w'.area.free.usedSections.contains 4 = true := by
  obtain ⟨a₀, events, a, hcreate, hrun, h⟩ := Area.Run.of_reaches crowdedLayout crowding
    (fun _ a => (Volume.backend Empty.elim).ends 0 (oneNode a [⟨"npage", none, .ioError, 0, none⟩])
      fun report w₂ n w' => n = 1 && !w₂.area.isShort 1 0 && w'.area.isShort 0 0 &&
        w'.area.free.freeSections = w₂.area.free.freeSections &&
        report.victims a.geometry = [4] && w'.area.free.usedSections.contains 4)
    (by decide +kernel)
  obtain ⟨w₁, report, w₂, n, w', hfailed, hpasses, hstart, hends⟩ := of_ends h
  simp only [Bool.and_eq_true, Bool.not_eq_true', decide_eq_true_eq] at hends
  obtain ⟨⟨⟨⟨⟨rfl, henough⟩, hshort⟩, hsame⟩, hvictims⟩, hused⟩ := hends
  exact ⟨oneNode a _, w₁, w₂, w', report, ⟨_, _, _, hcreate, hrun⟩, hfailed, hpasses, hstart,
    henough, hshort, hsame, hvictims, hused⟩

end Backend

end Reclaim
