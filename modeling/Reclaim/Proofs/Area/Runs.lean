import Reclaim.Proofs.Area.Checkpoint
import Reclaim.Proofs.Victim.Search

/-!
# Runs of an area

A `Course` is a sequence of commands from one area to another, each with what it wrote, and a `Run`
is one whose commands are admissible. `Command.spec` says what a single admissible command can do to
a sound area, and the rest follows by induction on runs: every area that a run from a created one
reaches is sound, so each of its segments is open, free, prefree, dirty or full and on the lists of
its class alone (`segment_class_unique`), and an address that is written twice has been dropped and
then passed a checkpoint in between (`address_reuse_needs_checkpoint`).
-/

namespace Reclaim.Area

/-! ## Commands -/

/-- A command to an area. -/
inductive Command where
  /-- Appends a block to a log. -/
  | allocate (log : Option Log) (now : ℕ)
  /-- Drops a block. -/
  | invalidate (addr : Address)
  /-- Frees the prefree segments. -/
  | checkpoint
  /-- Searches for a victim. -/
  | search (trigger : Trigger) (log : Option Log) (reuse : Reuse)
  /-- Sets the section under collection. -/
  | claim (sec : Option ℕ)
  /-- Sets the cursor of a ranking. -/
  | setCursor (ranking : Ranking) (seg : ℕ)
  /-- Files a segment under a log. -/
  | setLog (seg : ℕ) (log : Option Log)
  /-- Overrides the age of a segment. -/
  | setMtime (seg mtime : ℕ)
  /-- Overrides the age bounds. -/
  | setAgeBounds (oldest newest : ℕ)

namespace Command

/-- Runs a command, and tells the address that it wrote if it wrote one. -/
def run (a : Area) : Command → Guarded (Option Address × Area)
  | .allocate log now => do
    match ← a.allocate log now with
    | (.ok addr, a) => return (some addr, a)
    | (.error _, a) => return (none, a)
  | .invalidate addr => do
    let (_, a) ← a.invalidate addr
    return (none, a)
  | .checkpoint => do
    let (_, a) ← a.checkpoint
    return (none, a)
  | .search trigger log reuse => do
    let (_, a) ← a.findVictim trigger log reuse
    return (none, a)
  | .claim sec => return (none, { a with claimed := sec })
  | .setCursor ranking seg => return (none, { a with cursors := a.cursors.set ranking seg })
  | .setLog seg log => do
    let a ← a.setLog seg log
    return (none, a)
  | .setMtime seg mtime => do
    let a ← a.setMtime seg mtime
    return (none, a)
  | .setAgeBounds oldest newest => return (none, a.setAgeBounds oldest newest)

/-- Only segments in use are filed under another log. -/
def Admissible (a : Area) : Command → Prop
  | .setLog seg _ => a.isUsed seg = true
  | _ => True

instance (a : Area) (command : Command) : Decidable (command.Admissible a) :=
  match command with
  | .setLog seg _ => inferInstanceAs (Decidable (a.isUsed seg = true))
  | .allocate .. | .invalidate _ | .checkpoint | .search .. | .claim _ | .setCursor .. |
    .setMtime .. | .setAgeBounds .. => .isTrue trivial

/-- Whether a command neither writes nor drops nor frees blocks. -/
def isQuiet : Command → Bool
  | .allocate .. | .invalidate _ | .checkpoint => false
  | .search .. | .claim _ | .setCursor .. | .setLog .. | .setMtime .. | .setAgeBounds .. => true

/-- Whether a command files a segment under another log. -/
def refiles : Command → Bool
  | .setLog _ _ => true
  | _ => false

/-- A command that does not refile is no request to do so. -/
theorem ne_setLog {command : Command} (h : command.refiles = false) (seg : ℕ) (log : Option Log) :
    command ≠ .setLog seg log := by
  rintro rfl
  cases h

end Command

/-- What a command can do to a sound area. -/
structure Stepped (a : Area) (command : Command) (written : Option Address) (a' : Area) : Prop where
  /-- The area stays sound. -/
  sound : a'.Sound
  /-- The geometry is the same. -/
  geometry : a'.geometry = a.geometry
  /-- An address that is told has been written. -/
  wrote : ∀ addr, written = some addr → a.Wrote addr a'
  /-- Only a checkpoint makes a spent block writable again, and only a dead one. -/
  freed : ∀ x, a.Spent x → ¬a'.Spent x → command = .checkpoint ∧ ¬a.LiveAt x
  /-- A block dies only by being dropped. -/
  died : ∀ x, a.LiveAt x → ¬a'.LiveAt x → command = .invalidate x

variable {a a' : Area} {seg : ℕ}

/-- A command that writes and drops nothing. -/
theorem Stepped.of_quiet (ha' : a'.Sound) (h : a.Quiet a') (command : Command) :
    a.Stepped command none a' where
  sound := ha'
  geometry := h.geometry
  wrote _ hwritten := by cases hwritten
  freed _ hspent hfreed := absurd (h.spent_iff.mpr hspent) hfreed
  died _ hlive hdead := absurd (h.liveAt_iff.mpr hlive) hdead

/-- A command that writes a block. -/
theorem Stepped.of_wrote {addr : Address} (h : a.Wrote addr a') (command : Command) :
    a.Stepped command (some addr) a' where
  sound := h.sound
  geometry := h.evolves.geometry
  wrote _ hwritten := by
    cases hwritten
    exact h
  freed x hspent hfreed := absurd (h.evolves.spent x hspent) hfreed
  died x hlive hdead := absurd ((h.live x).mpr (Or.inl hlive)) hdead

/-- Dropping a block makes no other one die. -/
theorem Stepped.of_invalidate (ha : a.Sound) {addr : Address} {r : Outcome Unit}
    (h : a.invalidate addr = .ok (r, a')) : a.Stepped (.invalidate addr) none a' := by
  obtain ⟨hsound, hevolves, hlive⟩ := ha.invalidate_evolves h
  refine ⟨hsound, hevolves.geometry, ?_, ?_, ?_⟩
  · intro addr' heq
    cases heq
  · exact fun x hspent hfreed => absurd (hevolves.spent x hspent) hfreed
  · intro x hwas hdead
    by_contra hother
    refine hdead ((hlive x).mpr ⟨hwas, ?_⟩)
    rintro rfl
    exact hother rfl

/-- A checkpoint frees dead blocks. -/
theorem Stepped.of_checkpointed {n : ℕ} (h : a.Checkpointed n a') :
    a.Stepped .checkpoint none a' where
  sound := h.sound
  geometry := h.geometry
  wrote _ hwritten := by cases hwritten
  freed _ _ hfreed := ⟨rfl, h.dead_of_not_spent hfreed⟩
  died _ hlive hdead := absurd (h.liveAt_iff.mpr hlive) hdead

/-- Ages, cursors and claims decide nothing. -/
theorem Sound.quiet_of_records (ha : a.Sound) {table : SegmentTable}
    (hrecords : table.records = a.table.records) (hlive : table.live = a.table.live)
    (cursors : Cursors) (claimed : Option ℕ) :
    ({ a with table, cursors, claimed } : Area).Sound ∧
      a.Quiet { a with table, cursors, claimed } := by
  have hsearched := ha.searched_of_records hrecords hlive cursors claimed
  exact ⟨hsearched.sound ha, hsearched.quiet⟩

/-- Overriding the age of a segment keeps the area sound. -/
theorem Sound.setMtime (ha : a.Sound) {mtime : ℕ} (h : a.setMtime seg mtime = .ok a') :
    a'.Sound ∧ a.Quiet a' := by
  unfold Area.setMtime at h
  obtain ⟨table, hupdate, h⟩ := Guarded.bind_eq_ok.mp h
  obtain ⟨hlt, rfl⟩ := SegmentTable.update_eq_ok.mp hupdate
  cases h
  have hseg : seg < a.geometry.segments := by
    rw [← ha.table.size]
    exact hlt
  obtain ⟨htable, hrecord⟩ := SegmentTable.replace_spec ha.table hseg
    (s := { a.table.record seg with mtime }) rfl rfl
  generalize a.table.put seg { a.table.record seg with mtime } = table at htable hrecord
  have hlog : ∀ s, (table.record s).log = (a.table.record s).log := by
    intro s
    rw [(hrecord s).2.2]
    split_ifs with hs
    · rw [hs]
    · rfl
  exact ⟨ha.of_records rfl rfl rfl htable (fun s => (hrecord s).1) (fun s => (hrecord s).2.1) hlog
    ha.dirty (fun _ _ => rfl) fun _ => Or.inl, ⟨rfl, rfl, rfl, fun s => (hrecord s).1⟩⟩

/-- A command that neither writes nor drops nor frees blocks keeps an area sound. -/
theorem Command.quiet_of_run (ha : a.Sound) {command : Command}
    (hadmissible : command.Admissible a) (hquiet : command.isQuiet = true)
    {written : Option Address} (h : command.run a = .ok (written, a')) :
    a'.Sound ∧ a.Quiet a' ∧ written = none := by
  cases command with
  | allocate log now => cases hquiet
  | invalidate addr => cases hquiet
  | checkpoint => cases hquiet
  | search trigger log reuse =>
    obtain ⟨⟨r, a₁⟩, hfind, h⟩ := Guarded.bind_eq_ok.mp h
    cases h
    obtain ⟨hsearched, -⟩ := ha.findVictim hfind
    exact ⟨hsearched.sound ha, hsearched.quiet, rfl⟩
  | claim sec =>
    cases h
    obtain ⟨hsound, hquiet⟩ := ha.quiet_of_records rfl rfl a.cursors sec
    exact ⟨hsound, hquiet, rfl⟩
  | setCursor ranking seg =>
    cases h
    obtain ⟨hsound, hquiet⟩ := ha.quiet_of_records rfl rfl (a.cursors.set ranking seg) a.claimed
    exact ⟨hsound, hquiet, rfl⟩
  | setLog seg log =>
    obtain ⟨a₁, hrun, h⟩ := Guarded.bind_eq_ok.mp h
    obtain ⟨table, dirty, hset, hsound, hmap⟩ := ha.setLog hadmissible log
    cases hset.symm.trans hrun
    cases h
    exact ⟨hsound, ⟨rfl, rfl, rfl, hmap⟩, rfl⟩
  | setMtime seg mtime =>
    obtain ⟨a₁, hset, h⟩ := Guarded.bind_eq_ok.mp h
    cases h
    obtain ⟨hsound, hquiet⟩ := ha.setMtime hset
    exact ⟨hsound, hquiet, rfl⟩
  | setAgeBounds oldest newest =>
    cases h
    have hrecords : ({ a.table with oldest, newest } : SegmentTable).records = a.table.records := rfl
    obtain ⟨hsound, hquiet⟩ := ha.quiet_of_records hrecords rfl a.cursors a.claimed
    exact ⟨hsound, hquiet, rfl⟩

/-- What a command does to a sound area. -/
theorem Command.spec (ha : a.Sound) {command : Command} (hadmissible : command.Admissible a)
    {written : Option Address} (h : command.run a = .ok (written, a')) :
    a.Stepped command written a' := by
  cases command with
  | allocate log now =>
    obtain ⟨⟨r, a₁⟩, hrun, h⟩ := Guarded.bind_eq_ok.mp h
    rcases ha.allocate log now with htrap | ⟨status, hrefused⟩ | ⟨addr, a₂, hok, hwrote⟩
    · rw [htrap] at hrun
      cases hrun
    · rw [hrefused] at hrun
      cases hrun
      cases h
      exact Stepped.of_quiet ha ⟨rfl, rfl, rfl, fun _ => rfl⟩ _
    · rw [hok] at hrun
      cases hrun
      cases h
      exact Stepped.of_wrote hwrote _
  | invalidate addr =>
    obtain ⟨⟨r, a₁⟩, hinvalidate, h⟩ := Guarded.bind_eq_ok.mp h
    cases h
    exact Stepped.of_invalidate ha hinvalidate
  | checkpoint =>
    obtain ⟨⟨r, a₁⟩, hrun, h⟩ := Guarded.bind_eq_ok.mp h
    obtain ⟨n, a₂, hcheckpoint, hspec⟩ := ha.checkpoint
    cases hcheckpoint.symm.trans hrun
    cases h
    exact Stepped.of_checkpointed hspec
  | search | claim | setCursor | setLog | setMtime | setAgeBounds =>
    obtain ⟨hsound, hquiet, rfl⟩ := Command.quiet_of_run ha hadmissible rfl h
    exact Stepped.of_quiet hsound hquiet _

/-! ## Runs -/

/-- A command of a run, with the areas before and after it and the address that it wrote. -/
structure Event where
  /-- The area before the command. -/
  before : Area
  /-- The command. -/
  command : Command
  /-- The address that was written. -/
  written : Option Address
  /-- The area after the command. -/
  after : Area

/-- Courses of any commands from one area to another. -/
inductive Course : Area → List Event → Area → Prop
  | nil (a : Area) : Course a [] a
  | cons {a a₁ a' : Area} {events : List Event} (command : Command) (written : Option Address)
      (ran : command.run a = .ok (written, a₁)) (rest : Course a₁ events a') :
      Course a (⟨a, command, written, a₁⟩ :: events) a'

/-- Runs of admissible commands from one area to another. -/
inductive Run : Area → List Event → Area → Prop
  | nil (a : Area) : Run a [] a
  | cons {a a₁ a' : Area} {events : List Event} (command : Command) (written : Option Address)
      (admissible : command.Admissible a) (ran : command.run a = .ok (written, a₁))
      (rest : Run a₁ events a') : Run a (⟨a, command, written, a₁⟩ :: events) a'

/-- Runs a list of commands one after the other. -/
def Command.runAll (a : Area) : List Command → Guarded (List Event × Area)
  | [] => return ([], a)
  | command :: commands => do
    let (written, a₁) ← command.run a
    let (events, a') ← Command.runAll a₁ commands
    return (⟨a, command, written, a₁⟩ :: events, a')

/-- Whether a layout is accepted and a list of admissible commands runs to the end in the area
created from it, with a property of the run. -/
def Command.reaches (l : Layout) (commands : List Command) (p : List Event → Area → Bool) : Bool :=
  match create l with
  | .ok (.ok a₀) =>
    match Command.runAll a₀ commands with
    | .ok (events, a) => events.all (fun e => decide (e.command.Admissible e.before)) && p events a
    | .error _ => false
  | _ => false

namespace Course

variable {events : List Event}

/-- A course of admissible commands is a run. -/
theorem run (h : Course a events a') (hadmissible : ∀ e ∈ events, e.command.Admissible e.before) :
    Run a events a' := by
  induction h with
  | nil a => exact Run.nil a
  | cons command written ran rest ih =>
    exact Run.cons command written (hadmissible _ List.mem_cons_self) ran
      (ih fun e he => hadmissible e (List.mem_cons_of_mem _ he))

/-- A list of commands that runs to the end makes a course. -/
theorem of_runAll {commands : List Command} : ∀ {a : Area} {events : List Event},
    Command.runAll a commands = .ok (events, a') → Course a events a' := by
  induction commands with
  | nil =>
    intro a events h
    cases h
    exact Course.nil a'
  | cons command commands ih =>
    intro a events h
    unfold Command.runAll at h
    obtain ⟨⟨written, a₁⟩, hrun, h⟩ := Guarded.bind_eq_ok.mp h
    obtain ⟨⟨rest, a₂⟩, hrest, h⟩ := Guarded.bind_eq_ok.mp h
    cases h
    exact Course.cons command written hrun (ih hrest)

/-- Whether a layout is accepted and a list of commands runs to the end in the area created from it,
with a property of the course. -/
def leads (l : Layout) (commands : List Command) (p : List Event → Area → Bool) : Bool :=
  match create l with
  | .ok (.ok a₀) =>
    match Command.runAll a₀ commands with
    | .ok (events, a) => p events a
    | .error _ => false
  | _ => false

/-- A computed course is a course from a created area. -/
theorem of_leads (l : Layout) (commands : List Command) (p : List Event → Area → Bool)
    (h : leads l commands p = true) :
    ∃ a₀ events a, create l = .ok (.ok a₀) ∧ Course a₀ events a ∧ p events a = true := by
  unfold leads at h
  split at h
  · next a₀ hcreate =>
    split at h
    · next events a hrun => exact ⟨a₀, events, a, hcreate, of_runAll hrun, h⟩
    · cases h
  · cases h

end Course

namespace Run

variable {events : List Event}

/-- A list of admissible commands that runs to the end makes a run. -/
theorem of_runAll {commands : List Command} {a : Area} {events : List Event}
    (h : Command.runAll a commands = .ok (events, a'))
    (hadmissible : ∀ e ∈ events, e.command.Admissible e.before) : Run a events a' :=
  (Course.of_runAll h).run hadmissible

/-- A computed run is a run from a created area. -/
theorem of_reaches (l : Layout) (commands : List Command) (p : List Event → Area → Bool)
    (h : Command.reaches l commands p = true) :
    ∃ a₀ events a, create l = .ok (.ok a₀) ∧ Run a₀ events a ∧ p events a = true := by
  obtain ⟨a₀, events, a, hcreate, hcourse, h⟩ := Course.of_leads l commands
    (fun events a => events.all (fun e => decide (e.command.Admissible e.before)) && p events a) h
  rw [Bool.and_eq_true, List.all_eq_true] at h
  exact ⟨a₀, events, a, hcreate, hcourse.run fun e he => of_decide_eq_true (h.1 e he), h.2⟩

/-- Runs keep an area sound, with the same geometry. -/
theorem sound (h : Run a events a') (ha : a.Sound) :
    a'.Sound ∧ a'.geometry = a.geometry := by
  induction h with
  | nil => exact ⟨ha, rfl⟩
  | cons command written admissible ran rest ih =>
    have hstep := Command.spec ha admissible ran
    obtain ⟨ha', hgeometry⟩ := ih hstep.sound
    exact ⟨ha', hgeometry.trans hstep.geometry⟩

/-- A run can be cut before any of its commands, which then is the first of the second part. -/
theorem split {first second : List Event} {e : Event} :
    ∀ {a : Area}, Run a (first ++ e :: second) a' →
      Run a first e.before ∧ e.command.Admissible e.before ∧
        e.command.run e.before = .ok (e.written, e.after) ∧ Run e.after second a' := by
  induction first with
  | nil =>
    intro a h
    cases h with
    | cons command written admissible ran rest => exact ⟨Run.nil a, admissible, ran, rest⟩
  | cons e' first ih =>
    intro a h
    cases h with
    | cons command written admissible ran rest =>
      obtain ⟨hfirst, he⟩ := ih rest
      exact ⟨Run.cons command written admissible ran hfirst, he⟩

/-- A property that a run takes away is taken away by one of its commands. -/
theorem exists_loss {P : Area → Prop} (h : Run a events a') (hbefore : P a) (hafter : ¬P a') :
    ∃ first e second, events = first ++ e :: second ∧ P e.before ∧ ¬P e.after := by
  induction h with
  | nil => exact absurd hbefore hafter
  | @cons a a₁ a' events command written admissible ran rest ih =>
    by_cases hmid : P a₁
    · obtain ⟨first, e, second, rfl, he⟩ := ih hmid hafter
      exact ⟨⟨a, command, written, a₁⟩ :: first, e, second, rfl, he⟩
    · exact ⟨[], ⟨a, command, written, a₁⟩, events, rfl, hbefore, hmid⟩

/-- An event of a run from a sound area steps from a sound area. -/
theorem stepped {first second : List Event} {e : Event} (h : Run a (first ++ e :: second) a')
    (ha : a.Sound) : e.before.Sound ∧ e.before.geometry = a.geometry ∧
      e.before.Stepped e.command e.written e.after := by
  obtain ⟨hfirst, hadmissible, hran, -⟩ := h.split
  obtain ⟨hbefore, hgeometry⟩ := hfirst.sound ha
  exact ⟨hbefore, hgeometry, Command.spec hbefore hadmissible hran⟩

end Run

/-- An area that a run from a created one reaches. -/
def Reachable (a : Area) : Prop :=
  ∃ l a₀ events, create l = .ok (.ok a₀) ∧ Run a₀ events a

/-- Reachable areas are sound. -/
theorem Reachable.sound (h : a.Reachable) : a.Sound := by
  obtain ⟨l, a₀, events, hcreate, hrun⟩ := h
  exact (hrun.sound (create_sound hcreate)).1

/-! ## The classes of segments -/

/-- What a segment can be. -/
inductive SegmentClass where
  /-- The open segment of a log. -/
  | opened
  /-- Not in use. -/
  | free
  /-- In use without a live block, waiting for a checkpoint. -/
  | prefree
  /-- In use with live blocks and dead ones. -/
  | dirty
  /-- In use with live blocks only. -/
  | full
deriving DecidableEq

/-- Whether a segment is of a class and on the lists of that class alone. -/
def IsClass (a : Area) (seg : ℕ) : SegmentClass → Prop
  | .opened => a.isOpen seg = true ∧ a.isUsed seg = true ∧ ∀ c, a.dirty.contains c seg = false
  | .free => a.isUsed seg = false ∧ (a.table.record seg).live = 0 ∧
      ∀ c, a.dirty.contains c seg = false
  | .prefree => a.isUsed seg = true ∧ a.isOpen seg = false ∧ (a.table.record seg).live = 0 ∧
      ∀ c, a.dirty.contains c seg = true ↔ c = .prefree
  | .dirty => a.isUsed seg = true ∧ a.isOpen seg = false ∧ 0 < (a.table.record seg).live ∧
      (a.table.record seg).live < a.geometry.segmentBlocks ∧
      ∀ c, a.dirty.contains c seg = true ↔
        c = .dirty ∨ ∃ log, (a.table.record seg).log = some log ∧ c = .ofLog log
  | .full => a.isUsed seg = true ∧ a.isOpen seg = false ∧
      (a.table.record seg).live = a.geometry.segmentBlocks ∧ ∀ c, a.dirty.contains c seg = false

/-- The class of a segment, read off what is open, what is in use and the live count. -/
def classOf (a : Area) (seg : ℕ) : SegmentClass :=
  if a.isOpen seg then .opened
  else if !a.isUsed seg then .free
  else if (a.table.record seg).live = 0 then .prefree
  else if (a.table.record seg).live < a.geometry.segmentBlocks then .dirty
  else .full

/-- A segment is on the lists of the class that is read off. -/
theorem Sound.isClass_classOf (ha : a.Sound) (hseg : seg < a.geometry.segments) :
    a.IsClass seg (a.classOf seg) := by
  have hclass := ha.classified seg
  have hle := Segment.live_le (ha.table.records seg hseg)
  unfold Classified at hclass
  unfold classOf
  split_ifs with hopen hunused hzero hlt
  · obtain ⟨log, rfl⟩ := isOpen_iff.mp hopen
    exact ⟨hopen, (ha.heads log).used, ha.contains_of_open hopen⟩
  · rw [Bool.not_eq_true'] at hunused
    exact ⟨hunused, ha.unused_dead seg hunused, ha.contains_of_unused hunused⟩
  all_goals
    rw [Bool.not_eq_true] at hopen
    rw [Bool.not_eq_true', Bool.not_eq_false] at hunused
    rw [hopen, hunused] at hclass
    simp only [true_and] at hclass
  · refine ⟨hunused, hopen, hzero, fun c => ?_⟩
    rw [hclass]
    cases c <;> simp [Segment.FiledUnder, hzero]
  · have hpos := Nat.pos_of_ne_zero hzero
    refine ⟨hunused, hopen, hpos, hlt, fun c => ?_⟩
    rw [hclass]
    cases c <;> simp [Segment.FiledUnder, hpos, hlt, hzero]
  · refine ⟨hunused, hopen, Nat.le_antisymm hle (Nat.le_of_not_lt hlt), fun c => ?_⟩
    rw [← Bool.not_eq_true, hclass]
    cases c <;> simp [Segment.FiledUnder, hlt, hzero]

/-- A segment of a sound area is of no other class than the one that is read off. -/
theorem Sound.eq_classOf (ha : a.Sound) {c : SegmentClass} (h : a.IsClass seg c) :
    c = a.classOf seg := by
  have hblocks := Geometry.segmentBlocks_pos ha.geometry
  unfold classOf
  cases c with
  | opened => rw [if_pos h.1]
  | free =>
    have hclosed : a.isOpen seg = false := by
      rw [isOpen_eq_false_iff]
      rintro log rfl
      have hunused := h.1
      rw [(ha.heads log).used] at hunused
      cases hunused
    simp [hclosed, h.1]
  | prefree =>
    obtain ⟨hused, hclosed, hzero, -⟩ := h
    simp [hused, hclosed, hzero]
  | dirty =>
    obtain ⟨hused, hclosed, hpos, hlt, -⟩ := h
    simp [hused, hclosed, Nat.ne_of_gt hpos, hlt]
  | full =>
    obtain ⟨hused, hclosed, hfull, -⟩ := h
    simp [hused, hclosed, hfull, Nat.ne_of_gt hblocks]

/-- In every area that a run from a created one reaches, a segment is of exactly one class, on the
lists of that class alone, and the live count that decides about it is the number of its live
blocks. -/
theorem segment_class_unique {l : Layout} {a₀ : Area} {events : List Event}
    (hcreate : create l = .ok (.ok a₀)) (h : Run a₀ events a) (hseg : seg < a.geometry.segments) :
    (∃! c, a.IsClass seg c) ∧
      (a.table.record seg).live = ((Finset.range a.geometry.segmentBlocks).filter fun off =>
        (a.table.record seg).isLive off = true).card := by
  obtain ⟨ha, -⟩ := h.sound (create_sound hcreate)
  refine ⟨⟨a.classOf seg, ha.isClass_classOf hseg, fun c => ha.eq_classOf⟩, ?_⟩
  have hrecord := ha.table.records seg hseg
  rw [hrecord.live_eq, ← hrecord.map_size]
  rfl

/-- A layout of seven sections, each of one segment of two blocks. -/
def tinyLayout : Layout :=
  { segmentBits := 1, segmentsPerSection := 1, segments := 7, mainStart := 64 }

/-- A segment that is filled and then emptied is of one class. -/
theorem segment_class_unique_emptied : ∃ a₀ events a, create tinyLayout = .ok (.ok a₀) ∧
    Run a₀ events a ∧ a.classOf 0 = .prefree ∧ ∃! c, a.IsClass 0 c := by
  obtain ⟨a₀, events, a, hcreate, hrun, h⟩ := Run.of_reaches tinyLayout
    [.allocate (some Log.hotData) 5, .allocate (some Log.hotData) 6, .invalidate 64, .invalidate 65]
    (fun _ a => 0 < a.geometry.segments && a.classOf 0 = .prefree) (by decide +kernel)
  simp only [Bool.and_eq_true, decide_eq_true_eq] at h
  exact ⟨a₀, events, a, hcreate, hrun, h.2, (segment_class_unique hcreate hrun h.1).1⟩

/-! ## Reuse of addresses -/

/-- An address that a run from a created area writes is one of the area, no reserved one, and has
not been live; and when it is written again, it has been dropped in between, and then a checkpoint
has passed. -/
theorem address_reuse_needs_checkpoint {l : Layout} {a₀ : Area} {events : List Event}
    (hcreate : create l = .ok (.ok a₀)) (h : Run a₀ events a) {first rest : List Event} {e : Event}
    {addr : Address} (hevents : events = first ++ e :: rest) (hwritten : e.written = some addr) :
    (a₀.geometry.mainStart ≤ addr ∧
      addr < a₀.geometry.mainStart + a₀.geometry.segments * a₀.geometry.segmentBlocks ∧
      addr ≠ Address.null ∧ addr ≠ Address.fresh ∧ ¬e.before.LiveAt addr) ∧
      ∀ between e' last, rest = between ++ e' :: last → e'.written = some addr →
        ∃ x drop y checkpoint z, between = x ++ drop :: (y ++ checkpoint :: z) ∧
          drop.command = .invalidate addr ∧ drop.before.LiveAt addr ∧ ¬drop.after.LiveAt addr ∧
          checkpoint.command = .checkpoint := by
  have ha₀ := create_sound hcreate
  subst hevents
  obtain ⟨hbefore, hgeometry, hstep⟩ := h.stepped ha₀
  have hwrote := hstep.wrote addr hwritten
  refine ⟨?_, ?_⟩
  · obtain ⟨seg, hseg⟩ := hwrote.inside
    rw [hgeometry] at hseg
    obtain ⟨hlt, hoff, haddr⟩ := Geometry.eq_block_of_segmentOf? ha₀.geometry hseg
    rw [Geometry.startBlock_eq ha₀.geometry hlt] at haddr
    have hend := Geometry.block_lt hlt hoff
    have hallocated := Address.isAllocated_iff.mp (Geometry.isAllocated_of_segmentOf? hseg)
    have hin : a₀.geometry.mainStart ≤ addr ∧
        addr < a₀.geometry.mainStart + a₀.geometry.segments * a₀.geometry.segmentBlocks := by
      rw [haddr, Nat.add_assoc]
      exact ⟨Nat.le_add_right _ _, Nat.add_lt_add_left hend _⟩
    exact ⟨hin.1, hin.2, hallocated.1, hallocated.2,
      fun hlive => hwrote.unspent (hbefore.spent_of_live hlive)⟩
  · rintro between e' last rfl hwritten'
    obtain ⟨-, -, -, hrest⟩ := h.split
    obtain ⟨hbetween, -⟩ := hrest.split
    obtain ⟨-, -, hstep'⟩ := hrest.stepped hstep.sound
    -- The block is spent once it is written, and not any more when it is written again.
    have hlive : e.after.LiveAt addr := (hwrote.live addr).mpr (Or.inr rfl)
    obtain ⟨x, checkpoint, z, rfl, hspent, hfreed⟩ :=
      hbetween.exists_loss (P := fun a => a.Spent addr) (hstep.sound.spent_of_live hlive)
        (hstep'.wrote addr hwritten').unspent
    obtain ⟨-, -, hcheckpoint⟩ := hbetween.stepped hstep.sound
    obtain ⟨hcommand, hdead⟩ := hcheckpoint.freed addr hspent hfreed
    -- It was dead by then, so it has been dropped before.
    obtain ⟨hx, -⟩ := hbetween.split
    obtain ⟨x, drop, y, rfl, hwas, hdied⟩ :=
      hx.exists_loss (P := fun a => a.LiveAt addr) hlive hdead
    obtain ⟨-, -, hdrop⟩ := hx.stepped hstep.sound
    exact ⟨x, drop, y, checkpoint, z, by simp, hdrop.died addr hwas hdied, hwas, hdied, hcommand⟩

/-- A block that is written, dropped and written again has passed a checkpoint. -/
theorem address_reuse_needs_checkpoint_first : ∃ a₀ e between e' a,
    create tinyLayout = .ok (.ok a₀) ∧ Run a₀ (e :: (between ++ [e'])) a ∧
    e.written = some 64 ∧ e'.written = some 64 ∧
    ∃ x drop y checkpoint z, between = x ++ drop :: (y ++ checkpoint :: z) ∧
      drop.command = .invalidate 64 ∧ drop.before.LiveAt 64 ∧ ¬drop.after.LiveAt 64 ∧
      checkpoint.command = .checkpoint := by
  obtain ⟨a₀, events, a, hcreate, hrun, h⟩ := Run.of_reaches tinyLayout
    [.allocate (some Log.hotData) 5, .allocate (some Log.hotData) 6, .invalidate 64, .invalidate 65,
      .checkpoint, .allocate (some Log.hotData) 7, .allocate (some Log.hotData) 8,
      .allocate (some Log.hotData) 9]
    (fun events _ => events.map (·.written) =
      some 64 :: ([some 65, none, none, none, some 76, some 77] ++ [some 64])) (by decide +kernel)
  obtain ⟨e, rest, rfl, he, hrest⟩ := List.map_eq_cons_iff.mp (of_decide_eq_true h)
  obtain ⟨between, last, rfl, -, hlast⟩ := List.map_eq_append_iff.mp hrest
  obtain ⟨e', nothing, rfl, he', hnothing⟩ := List.map_eq_cons_iff.mp hlast
  obtain rfl := List.map_eq_nil_iff.mp hnothing
  exact ⟨a₀, e, between, e', a, hcreate, hrun, he, he',
    (address_reuse_needs_checkpoint hcreate hrun (List.nil_append _).symm he).2 between e' [] rfl
      he'⟩

end Reclaim.Area
