import Reclaim.Proofs.Area.Runs
import Reclaim.Proofs.Victim.Range
import Reclaim.Proofs.Victim.Reference

/-!
# Nothing traps and nothing wraps

A created area is ready, and a command whose clock has 32 bits gives a result in a ready area and
leaves it ready (`Ready.run`). For a victim search this rests on the cursor being in the area
(`cursor_lt_of_fullScan`), on the ages fitting, and on staged sections being sections of the area.
By induction, every list of such commands runs to its end and everything stays in range on the way
(`timely_commands_stay_in_range`).
-/

namespace Reclaim.Area

variable {a a' : Area}

/-! ## Searches -/

/-- A scan leaves its cursor in the area. -/
theorem cursor_lt_of_fullScan {p : Policy} {trigger : Trigger} {bound : ℕ} {f : Found}
    (hsegments : 0 < a.geometry.segments) (hbudget : p.budget ≠ 0)
    (h : a.fullScan p trigger bound = .ok f) : f.cursor < a.geometry.segments := by
  rw [fullScan_eq hbudget] at h
  cases hweigh : a.weighAll p trigger (a.examined p) ⟨none, bound, a.table, 0⟩ with
  | error t =>
    rw [hweigh] at h
    cases h
  | ok found =>
    rw [hweigh] at h
    cases h
    exact cursorAfter_lt hsegments _ _

/-- A search that scans sets the cursor of its ranking to one in the area, and every other search
sets none. -/
theorem cursors_of_findVictim (hsegments : 0 < a.geometry.segments) {trigger : Trigger}
    {log : Option Log} {reuse : Reuse} {r : Outcome ℕ}
    (h : a.findVictim trigger log reuse = .ok (r, a')) :
    ((a.policy trigger log reuse).budget = 0 ∨ a.TakesOver trigger log reuse) ∧
        a'.cursors = a.cursors ∨
      ∃ cursor < a.geometry.segments,
        a'.cursors = a.cursors.set (a.policy trigger log reuse).ranking cursor := by
  cases answered_of_findVictim h with
  | idle budget => exact Or.inl ⟨Or.inl budget, rfl⟩
  | takeover takes => exact Or.inl ⟨Or.inr takes, rfl⟩
  | fruitless listed _ scan _ =>
    exact Or.inr ⟨_, cursor_lt_of_fullScan hsegments listed scan, rfl⟩
  | found listed _ scan _ claim =>
    have hcursor := cursor_lt_of_fullScan hsegments listed scan
    obtain ⟨-, ⟨-, rfl⟩ | ⟨-, -, rfl⟩ | ⟨-, -, _, _, -, rfl⟩⟩ := claim_cases claim
    · exact Or.inr ⟨_, hcursor, rfl⟩
    · exact Or.inr ⟨_, hcursor, rfl⟩
    · exact Or.inr ⟨_, hcursor, rfl⟩

/-- A search leaves cursors in the area there. -/
theorem cursors_lt_of_findVictim
    (hcursors : ∀ ranking, a.cursors.get ranking < a.geometry.segments) {trigger : Trigger}
    {log : Option Log} {reuse : Reuse} {r : Outcome ℕ}
    (h : a.findVictim trigger log reuse = .ok (r, a')) (ranking : Ranking) :
    a'.cursors.get ranking < a.geometry.segments := by
  have hother := hcursors ranking
  rcases cursors_of_findVictim (Nat.zero_lt_of_lt hother) h with ⟨-, hsame⟩ | ⟨cursor, hlt, hset⟩
  · rw [hsame]
    exact hother
  · rw [hset]
    generalize (a.policy trigger log reuse).ranking = searched
    cases searched <;> cases ranking <;> first | exact hlt | exact hother

/-- A search that takes over a staged section gives an answer. -/
theorem Sound.exists_takeover (ha : a.Sound) {trigger : Trigger} {log : Option Log} {reuse : Reuse}
    (hcursor : ¬a.CursorOverflows trigger log reuse) (h : a.TakesOver trigger log reuse) :
    ∃ r a', a.findVictim trigger log reuse = .ok (r, a') := by
  obtain ⟨sec, hlowest⟩ := Option.ne_none_iff_exists'.mp h.staged
  have hstaged : a.dirty.staged.contains sec = true :=
    (Bitmap.mem_toList ha.dirty.staged sec).mp (List.mem_of_find?_eq_some hlowest)
  have hidle := List.find?_some hlowest
  rw [Bool.not_eq_true'] at hidle
  obtain ⟨-, dirty, hunstage, -⟩ := ha.unstage hstaged hidle
  rw [findVictim_eq_takeover hcursor h hlowest, hunstage]
  exact ⟨_, _, rfl⟩

/-- In a ready area a victim search gives an answer. -/
theorem Ready.exists_findVictim (ha : a.Ready) (trigger : Trigger) (log : Option Log)
    (reuse : Reuse) : ∃ r a', a.findVictim trigger log reuse = .ok (r, a') := by
  by_cases htakes : a.TakesOver trigger log reuse
  · exact ha.toSound.exists_takeover (ha.toSound.not_cursorOverflows (ha.cursors _)) htakes
  · exact ha.toSound.exists_findVictim (ha.cursors _) htakes fun _ _ seg _ =>
      ha.clocked.agesFit ha.geometry _

/-- In a ready area a victim search gives an answer, and the area stays ready. -/
theorem Ready.findVictim (ha : a.Ready) (trigger : Trigger) (log : Option Log) (reuse : Reuse) :
    ∃ r a', a.findVictim trigger log reuse = .ok (r, a') ∧ a'.Ready := by
  obtain ⟨r, a', h⟩ := ha.exists_findVictim trigger log reuse
  obtain ⟨hsearched, -⟩ := ha.toSound.findVictim h
  refine ⟨r, a', h, hsearched.sound ha.toSound, ha.clocked.of_records hsearched.records, ?_⟩
  rw [hsearched.geometry]
  exact cursors_lt_of_findVictim ha.cursors h

/-! ## Commands -/

/-- The commands of a manager whose clock has 32 bits: it writes, drops, frees and searches, and may
override the age bounds. Cursors, claims, logs and the ages of segments are set by nobody. -/
def Command.Timely : Command → Prop
  | .allocate _ now => now < 2 ^ 32
  | .invalidate _ | .checkpoint | .search .. | .setAgeBounds .. => True
  | .claim _ | .setCursor .. | .setLog .. | .setMtime .. => False

instance (command : Command) : Decidable command.Timely :=
  match command with
  | .allocate _ now => inferInstanceAs (Decidable (now < 2 ^ 32))
  | .invalidate _ | .checkpoint | .search .. | .setAgeBounds .. => .isTrue trivial
  | .claim _ | .setCursor .. | .setLog .. | .setMtime .. => .isFalse id

/-- Timely commands file no segment under another log. -/
theorem Command.Timely.admissible {command : Command} (h : command.Timely) (a : Area) :
    command.Admissible a := by
  cases command with
  | setLog seg log => exact h.elim
  | allocate | invalidate | checkpoint | search | claim | setCursor | setMtime | setAgeBounds =>
    trivial

/-- A timely command gives a result in a ready area, and the area stays ready. -/
theorem Ready.run (ha : a.Ready) {command : Command} (h : command.Timely) :
    ∃ written a', command.run a = .ok (written, a') ∧ a'.Ready := by
  cases command with
  | allocate log now =>
    obtain ⟨r, a', hrun, ha'⟩ := ha.allocate log h
    cases r with
    | error status => exact ⟨none, a', Guarded.bind_eq_ok.mpr ⟨_, hrun, rfl⟩, ha'⟩
    | ok addr => exact ⟨some addr, a', Guarded.bind_eq_ok.mpr ⟨_, hrun, rfl⟩, ha'⟩
  | invalidate addr =>
    obtain ⟨r, a', hrun, ha'⟩ := ha.invalidate addr
    exact ⟨none, a', Guarded.bind_eq_ok.mpr ⟨_, hrun, rfl⟩, ha'⟩
  | checkpoint =>
    obtain ⟨n, a', hrun, ha'⟩ := ha.checkpoint
    exact ⟨none, a', Guarded.bind_eq_ok.mpr ⟨_, hrun, rfl⟩, ha'⟩
  | search trigger log reuse =>
    obtain ⟨r, a', hrun, ha'⟩ := ha.findVictim trigger log reuse
    exact ⟨none, a', Guarded.bind_eq_ok.mpr ⟨_, hrun, rfl⟩, ha'⟩
  | setAgeBounds oldest newest =>
    have hrun : (Command.setAgeBounds oldest newest).run a =
        .ok (none, a.setAgeBounds oldest newest) := rfl
    have hstep := Command.spec ha.toSound (h.admissible a) hrun
    exact ⟨none, _, hrun, hstep.sound, ha.clocked.of_records rfl, ha.cursors⟩
  | claim _ | setCursor _ _ | setLog _ _ | setMtime _ _ => exact h.elim

/-- An address that has been written is that of a block of the area, below the last address. -/
theorem Wrote.address_eq {addr : Address} (h : a.Wrote addr a') (hg : a.geometry.Valid) :
    ∃ seg off, seg < a.geometry.segments ∧ off < a.geometry.segmentBlocks ∧
      addr = a.geometry.mainStart + seg * a.geometry.segmentBlocks + off ∧ addr < 2 ^ 32 - 1 := by
  obtain ⟨seg, hseg⟩ := h.inside
  obtain ⟨hlt, hoff, haddr⟩ := Geometry.eq_block_of_segmentOf? hg hseg
  rw [Geometry.startBlock_eq hg hlt] at haddr
  refine ⟨seg, _, hlt, hoff, haddr, ?_⟩
  have hblock := Geometry.block_lt hlt hoff
  have hend := Geometry.end_lt hg
  have hword : a.geometry.mainStart + seg * a.geometry.segmentBlocks + a.geometry.offsetOf addr <
      2 ^ 32 - 1 := by omega
  rw [← haddr] at hword
  exact hword

/-! ## The main result -/

/-- An event that leaves everything in range, and that wrote a block of the area if it wrote one. -/
structure Event.InRange (e : Event) : Prop where
  /-- Everything is in range afterwards. -/
  after : e.after.InRange
  /-- An address that is told is that of a block of the area, and fits a word. -/
  address : ∀ addr, e.written = some addr →
    ∃ seg off, seg < e.after.geometry.segments ∧ off < e.after.geometry.segmentBlocks ∧
      addr = e.after.geometry.mainStart + seg * e.after.geometry.segmentBlocks + off ∧
      addr < 2 ^ 32 - 1

/-- A list of timely commands runs to its end in a ready area, and everything stays in range. -/
theorem Ready.runAll : ∀ {commands : List Command} {a : Area}, a.Ready →
    (∀ command ∈ commands, command.Timely) →
    ∃ events a', Command.runAll a commands = .ok (events, a') ∧ ∀ e ∈ events, e.InRange
  | [], a, _, _ => ⟨[], a, rfl, fun _ he => absurd he List.not_mem_nil⟩
  | command :: commands, a, ha, h => by
    have hfirst := h command List.mem_cons_self
    obtain ⟨written, a₁, hrun, ha₁⟩ := ha.run hfirst
    obtain ⟨events, a', hrest, hin⟩ := ha₁.runAll fun c hc => h c (List.mem_cons_of_mem _ hc)
    have hstep := Command.spec ha.toSound (hfirst.admissible a) hrun
    refine ⟨⟨a, command, written, a₁⟩ :: events, a', ?_, ?_⟩
    · unfold Command.runAll
      rw [hrun, Guarded.ok_bind]
      dsimp only
      rw [hrest]
      rfl
    · intro e he
      rcases List.mem_cons.mp he with rfl | he
      · refine ⟨ha₁.inRange, fun addr hwritten => ?_⟩
        rw [hstep.geometry]
        exact (hstep.wrote addr hwritten).address_eq ha.geometry
      · exact hin e he

/-- In a created area, a list of requests for blocks of any log at times of 32 bits, of drops of any
address, of checkpoints, of victim searches with any arguments, and of settings of the age bounds to
any values runs to its end without a trap. After each of them everything is in range: no map is
read, written or marked past its size, every count is at most what it counts, the cost functions
compute in words whatever the age bounds are, and every address that is written fits a word. -/
theorem timely_commands_stay_in_range {l : Layout} {a₀ : Area} (hcreate : create l = .ok (.ok a₀))
    (commands : List Command) (h : ∀ command ∈ commands, command.Timely) :
    ∃ events a, Command.runAll a₀ commands = .ok (events, a) ∧ a₀.InRange ∧
      ∀ e ∈ events, e.InRange := by
  have ha₀ := create_ready hcreate
  obtain ⟨events, a, hrun, hin⟩ := ha₀.runAll h
  exact ⟨events, a, hrun, ha₀.inRange, hin⟩

/-- A section that is filled, staged, taken over, emptied and freed, with the age bounds set the
wrong way round in between. -/
theorem timely_commands_stay_in_range_cycle : ∃ a₀ events a,
    create tinyLayout = .ok (.ok a₀) ∧
    Command.runAll a₀ [.allocate (some Log.hotData) 5, .allocate (some Log.hotData) 4294967295,
      .invalidate 64, .setAgeBounds 0 0xFFFF_FFFF_FFFF_FFFF, .search .background none .wholeSection,
      .setAgeBounds 9 3, .search .foreground none .wholeSection,
      .search .background (some Log.hotData) .slots, .invalidate 65, .invalidate 0xFFFF_FFFE,
      .checkpoint, .allocate none 7] = .ok (events, a) ∧
    a₀.InRange ∧ ∀ e ∈ events, e.InRange := by
  obtain ⟨a₀, -, -, hcreate, -, -⟩ :=
    Course.of_leads tinyLayout [] (fun _ _ => true) (by decide +kernel)
  obtain ⟨events, a, hrun, hin⟩ := timely_commands_stay_in_range hcreate
    [.allocate (some Log.hotData) 5, .allocate (some Log.hotData) 4294967295,
      .invalidate 64, .setAgeBounds 0 0xFFFF_FFFF_FFFF_FFFF, .search .background none .wholeSection,
      .setAgeBounds 9 3, .search .foreground none .wholeSection,
      .search .background (some Log.hotData) .slots, .invalidate 65, .invalidate 0xFFFF_FFFE,
      .checkpoint, .allocate none 7] (by decide)
  exact ⟨a₀, events, a, hcreate, hrun, hin⟩

end Reclaim.Area
