import Reclaim.Background.Session
import Reclaim.Proofs.Guarded
import Reclaim.Proofs.Since

/-!
# What a worker reports of its pauses

Whether a worker is paused and the state that it reports are two values, and the owner and the loop
write both on their own. A `Worker.History` is any sequence of their moves. By its history a worker
is paused exactly if it has not been resumed since it was last paused (`History.paused_iff`), and it
reports a pause exactly if no move has reported another state since then (`History.state_iff`).
`Stale` and `Masked` are the histories that meet only one of the two conditions.

They exist because a resume reports nothing to a worker that does not run, and because the entry
into the loop and the beginning of a round report their states without asking whether the worker is
paused. `report_by_history` says that nothing else parts the two values, that a loop which sleeps
reports no pause that is over, and that an owner sees both values agree who starts no paused worker
and pauses it only while its loop sleeps or its target collects (`Orderly`).
-/

namespace Reclaim

/-- A move of a worker, of its owner or of its loop. -/
inductive WorkerMove where
  /-- The owner starts the worker. -/
  | start
  /-- The owner makes another of its moves. -/
  | owner (move : OwnerMove)
  /-- The loop is entered. -/
  | enter
  /-- The loop wakes. -/
  | wake (targetAlive : Bool)
  /-- The loop takes the answer of its target. -/
  | answer (worthwhile : Bool)
  /-- The loop takes the outcome of collecting. -/
  | settle (outcome : RoundOutcome)

/-- No round of a worker is in progress. -/
def Worker.AtRest (w : Worker) : Prop :=
  ∀ wait, w.stage ≠ .asking wait ∧ w.stage ≠ .collecting wait

namespace WorkerMove

/-- The loop makes each of its moves at one stage. The owner makes its moves at any time, except
that stopping waits for the end of a round. -/
def Possible (w : Worker) : WorkerMove → Prop
  | start => True
  | owner .stop => w.AtRest
  | owner _ => True
  | enter => w.stage = .spawned
  | wake _ => ∃ wait, w.stage = .asleep wait
  | answer _ => ∃ wait, w.stage = .asking wait
  | settle _ => ∃ wait, w.stage = .collecting wait

/-- The worker after a move. -/
def make (w : Worker) : WorkerMove → Guarded Worker
  | start => return w.start.2
  | owner move => return w.move move
  | enter => return w.enter
  | wake targetAlive => return w.wake targetAlive
  | answer worthwhile => w.answer worthwhile
  | settle outcome => w.settle outcome

end WorkerMove

/-- A move of a worker, with the worker before it. -/
structure WorkerEvent where
  /-- The worker before the move. -/
  before : Worker
  /-- The move. -/
  move : WorkerMove

namespace WorkerEvent

/-- The owner pauses the worker. -/
def Pauses (e : WorkerEvent) : Prop := e.move = .owner .pause

/-- The owner resumes the worker. -/
def Resumes (e : WorkerEvent) : Prop := e.move = .owner .resume

/-- The worker reports a state, and not that it is paused: it is resumed while it runs, it is
stopped, its loop is entered or ends, or a round begins to collect or ends without a pause. -/
def Overwrites (e : WorkerEvent) : Prop :=
  match e.move with
  | .start => False
  | .owner .pause => False
  | .owner .resume => e.before.running = true
  | .owner .stop => True
  | .enter => True
  | .wake targetAlive => e.before.paused = false ∧ targetAlive = false
  | .answer worthwhile => worthwhile = true
  | .settle _ => e.before.paused = false

/-- No paused worker is started, and a worker is paused only while its loop sleeps or its target
collects. -/
def Orderly (e : WorkerEvent) : Prop :=
  match e.move with
  | .start => e.before.running = true ∨ e.before.paused = false
  | .owner .pause => ∃ wait, e.before.stage = .asleep wait ∨ e.before.stage = .collecting wait
  | _ => True

end WorkerEvent

namespace Worker

variable {p : Pacing} {w w' : Worker} {events : List WorkerEvent} {m : WorkerMove} {wait : ℕ}

/-- The moves that lead from a new worker to a worker, the first move first. -/
inductive History (p : Pacing) : List WorkerEvent → Worker → Prop
  | created : History p [] (create p)
  | moved {events : List WorkerEvent} {w w' : Worker} (move : WorkerMove)
      (history : History p events w) (possible : move.Possible w) (made : move.make w = .ok w') :
      History p (events ++ [⟨w, move⟩]) w'

/-! ## One move -/

/-- All that a move can do to a worker. -/
inductive Step (w : Worker) : WorkerMove → Worker → Prop
  | startAgain (running : w.running = true) : Step w .start w
  | start (running : w.running = false) :
      Step w .start { w with running := true, stage := .spawned }
  | pause : Step w (.owner .pause) { w with paused := true, state := .paused }
  | resume (running : w.running = true) :
      Step w (.owner .resume) { w with paused := false, state := .idle }
  | resumeAtStandstill (running : w.running = false) :
      Step w (.owner .resume) { w with paused := false }
  | stop (rest : w.AtRest) :
      Step w (.owner .stop) { w with running := false, stage := .absent, state := .stopped }
  | enter (stage : w.stage = .spawned) :
      Step w .enter { w with state := .idle, stage := .asleep w.pacing.minSleep }
  | sleepOn {wait : ℕ} (targetAlive : Bool) (stage : w.stage = .asleep wait)
      (paused : w.paused = true) : Step w (.wake targetAlive) w
  | ask {wait : ℕ} (stage : w.stage = .asleep wait) (paused : w.paused = false) :
      Step w (.wake true) { w with stage := .asking wait }
  | leave {wait : ℕ} (stage : w.stage = .asleep wait) (paused : w.paused = false) :
      Step w (.wake false) { w with running := false, state := .stopped, stage := .absent }
  | collect {wait : ℕ} (stage : w.stage = .asking wait) :
      Step w (.answer true) { w with state := .collecting, stage := .collecting wait }
  | decline {wait : ℕ} (stage : w.stage = .asking wait) (rounds : Rounds) (wait' : ℕ) :
      Step w (.answer false) { w with rounds, stage := .asleep wait' }
  | settle {wait : ℕ} (stage : w.stage = .collecting wait) (paused : w.paused = false)
      (outcome : RoundOutcome) (rounds : Rounds) (wait' : ℕ) :
      Step w (.settle outcome) { w with rounds, stage := .asleep wait', state := .idle }
  | settlePaused {wait : ℕ} (stage : w.stage = .collecting wait) (paused : w.paused = true)
      (outcome : RoundOutcome) (rounds : Rounds) (wait' : ℕ) :
      Step w (.settle outcome) { w with rounds, stage := .asleep wait' }

/-- Going to sleep changes the statistics and the stage alone. -/
theorem sleep_eq_ok {outcome : RoundOutcome} (h : w.sleep wait outcome = .ok w') :
    ∃ rounds wait', w' = { w with rounds, stage := .asleep wait' } := by
  unfold sleep at h
  obtain ⟨wait', -, h⟩ := Guarded.bind_eq_ok.mp h
  cases h
  exact ⟨_, wait', rfl⟩

/-- An answer of the target begins to collect or ends the round. -/
theorem step_of_answer {worthwhile : Bool} (hstage : w.stage = .asking wait)
    (h : w.answer worthwhile = .ok w') : Step w (.answer worthwhile) w' := by
  unfold answer at h
  rw [hstage] at h
  cases worthwhile with
  | true =>
    cases h
    exact Step.collect hstage
  | false =>
    obtain ⟨rounds, wait', rfl⟩ := sleep_eq_ok h
    exact Step.decline hstage rounds wait'

/-- An outcome ends the round. -/
theorem step_of_settle {outcome : RoundOutcome} (hstage : w.stage = .collecting wait)
    (h : w.settle outcome = .ok w') : Step w (.settle outcome) w' := by
  unfold settle at h
  rw [hstage] at h
  obtain ⟨slept, hsleep, h⟩ := Guarded.bind_eq_ok.mp h
  obtain ⟨rounds, wait', rfl⟩ := sleep_eq_ok hsleep
  dsimp only at h
  split_ifs at h with hpaused
  · cases h
    exact Step.settlePaused hstage hpaused outcome rounds wait'
  · cases h
    exact Step.settle hstage (Bool.eq_false_iff.mpr hpaused) outcome rounds wait'

/-- A move at its time is one of the steps. -/
theorem step_of_make (hpossible : m.Possible w) (hmade : m.make w = .ok w') : Step w m w' := by
  cases m with
  | start =>
    cases hmade
    unfold Worker.start
    split_ifs with hrunning
    · exact Step.startAgain hrunning
    · exact Step.start (Bool.eq_false_iff.mpr hrunning)
  | owner move =>
    cases hmade
    cases move with
    | pause => exact Step.pause
    | stop => exact Step.stop hpossible
    | resume =>
      unfold move Worker.resume
      split_ifs with hrunning
      · exact Step.resume hrunning
      · exact Step.resumeAtStandstill (Bool.eq_false_iff.mpr hrunning)
  | enter =>
    cases hmade
    unfold Worker.enter
    rw [show w.stage = .spawned from hpossible]
    exact Step.enter hpossible
  | wake targetAlive =>
    obtain ⟨wait, hstage⟩ := hpossible
    cases hmade
    unfold Worker.wake
    rw [hstage]
    dsimp only
    split_ifs with hpaused halive
    · exact Step.sleepOn targetAlive hstage hpaused
    · rw [halive]
      exact Step.ask hstage (Bool.eq_false_iff.mpr hpaused)
    · rw [Bool.eq_false_iff.mpr halive]
      exact Step.leave hstage (Bool.eq_false_iff.mpr hpaused)
  | answer worthwhile =>
    obtain ⟨wait, hstage⟩ := hpossible
    exact step_of_answer hstage hmade
  | settle outcome =>
    obtain ⟨wait, hstage⟩ := hpossible
    exact step_of_settle hstage hmade

/-- A step leaves a worker paused if it pauses it, or if it was paused and the step does not resume
it. -/
theorem Step.paused_iff (h : Step w m w') : w'.paused = true ↔
    WorkerEvent.Pauses ⟨w, m⟩ ∨ w.paused = true ∧ ¬WorkerEvent.Resumes ⟨w, m⟩ := by
  unfold WorkerEvent.Pauses WorkerEvent.Resumes
  cases h <;> simp

/-- After a step a worker reports a pause if the step pauses it, or if it reported one and the step
reports nothing else. -/
theorem Step.state_iff (h : Step w m w') : w'.state = .paused ↔
    WorkerEvent.Pauses ⟨w, m⟩ ∨ w.state = .paused ∧ ¬WorkerEvent.Overwrites ⟨w, m⟩ := by
  unfold WorkerEvent.Pauses WorkerEvent.Overwrites
  cases h <;> simp_all

/-! ## Histories -/

/-- A worker is paused if it has not been resumed since it was paused. -/
theorem History.paused_iff (h : History p events w) :
    w.paused = true ↔ Since (¬·.Resumes) WorkerEvent.Pauses events := by
  induction h with
  | created => exact iff_of_false Bool.false_ne_true not_since_nil
  | moved move _ hpossible hmade ih =>
    rw [since_concat, ← ih]
    exact (step_of_make hpossible hmade).paused_iff

/-- A worker reports a pause if it has not reported another state since it was paused. -/
theorem History.state_iff (h : History p events w) :
    w.state = .paused ↔ Since (¬·.Overwrites) WorkerEvent.Pauses events := by
  induction h with
  | created => exact iff_of_false nofun not_since_nil
  | moved move _ hpossible hmade ih =>
    rw [since_concat, ← ih]
    exact (step_of_make hpossible hmade).state_iff

/-- The worker has been resumed since it was last paused, and no move has reported a state since
then: each of the resumes found a worker that did not run. -/
def Stale (events : List WorkerEvent) : Prop :=
  ∃ before e after, events = before ++ e :: after ∧ e.Pauses ∧ (∃ f ∈ after, f.Resumes) ∧
    ∀ f ∈ after, ¬f.Pauses ∧ ¬f.Overwrites

/-- The worker has not been resumed since it was last paused, but a move has reported a state since
then. -/
def Masked (events : List WorkerEvent) : Prop :=
  ∃ before e after, events = before ++ e :: after ∧ e.Pauses ∧ (∃ f ∈ after, f.Overwrites) ∧
    ∀ f ∈ after, ¬f.Pauses ∧ ¬f.Resumes

/-- The stage of a worker fits its other values: a loop runs, and once it is entered it reports no
pause that is over. -/
structure InStep (w : Worker) : Prop where
  /-- A worker with a loop runs. -/
  running : w.stage ≠ .absent → w.running = true
  /-- A loop that has been entered reports no pause that is over. -/
  entered : w.stage ≠ .absent → w.stage ≠ .spawned → w.state = .paused → w.paused = true

/-- Each step keeps the values of a worker in step. -/
theorem InStep.step (hw : w.InStep) (h : Step w m w') : w'.InStep := by
  obtain ⟨hrunning, hentered⟩ := hw
  cases h <;> constructor <;> simp_all

/-- The values of a worker are always in step. -/
theorem History.inStep (h : History p events w) : w.InStep := by
  induction h with
  | created => exact ⟨fun h => absurd rfl h, fun h => absurd rfl h⟩
  | moved move _ hpossible hmade ih => exact ih.step (step_of_make hpossible hmade)

/-- What an orderly owner sees: a pause is reported exactly if the worker runs and is paused. -/
structure Faithful (w : Worker) : Prop where
  /-- A pause is reported exactly if the worker runs and is paused. -/
  state_iff : w.state = .paused ↔ w.running = true ∧ w.paused = true
  /-- A loop that is about to be entered is not paused. -/
  spawned : w.stage = .spawned → w.paused = false
  /-- A loop that asks its target is not paused. -/
  asking : ∀ wait, w.stage = .asking wait → w.paused = false

/-- An orderly step keeps the reports of a worker faithful. -/
theorem Faithful.step (hw : w.Faithful) (hstep : w.InStep) (h : Step w m w')
    (horderly : WorkerEvent.Orderly ⟨w, m⟩) : w'.Faithful := by
  obtain ⟨hstate, hspawned, hasking⟩ := hw
  have hrunning := hstep.running
  unfold WorkerEvent.Orderly at horderly
  cases h with
  | startAgain => exact ⟨hstate, hspawned, hasking⟩
  | sleepOn => exact ⟨hstate, hspawned, hasking⟩
  | pause =>
    -- The loop sleeps or the target collects, so the worker runs.
    obtain ⟨wait, hstage | hstage⟩ := horderly
    · constructor <;> simp_all
    · constructor <;> simp_all
  | _ => constructor <;> simp_all

/-- The reports of a worker with an orderly owner are faithful. -/
theorem History.faithful (h : History p events w) (horderly : ∀ e ∈ events, e.Orderly) :
    w.Faithful := by
  induction h with
  | created => exact ⟨by simp [create], fun _ => rfl, fun _ _ => rfl⟩
  | moved move hbefore hpossible hmade ih =>
    have hrest := ih fun e he => horderly e (List.mem_append_left _ he)
    exact hrest.step hbefore.inStep (step_of_make hpossible hmade)
      (horderly _ (List.mem_append_right _ (List.mem_singleton_self _)))

/-- After every history of a worker, a pause is reported of a worker that is not paused exactly if
since the last pause the worker has been resumed and no move has reported a state; and a worker that
is paused reports another state exactly if since the last pause it has not been resumed and a move
has reported a state. The first never happens while the loop sleeps, nor does either while the owner
starts no paused worker and pauses it only while its loop sleeps or its target collects: then a
pause is reported exactly if the worker runs and is paused. -/
theorem report_by_history (h : History p events w) :
    (w.state = .paused ∧ w.paused = false ↔ Stale events) ∧
    (w.paused = true ∧ w.state ≠ .paused ↔ Masked events) ∧
    (∀ wait, w.stage = .asleep wait → w.state = .paused → w.paused = true) ∧
    ((∀ e ∈ events, e.Orderly) → (w.state = .paused ↔ w.running = true ∧ w.paused = true)) := by
  refine ⟨?_, ?_, fun wait hstage => ?_, fun horderly => (h.faithful horderly).state_iff⟩
  · rw [← Bool.not_eq_true, h.state_iff, h.paused_iff]
    exact since_and_not_since_iff
  · rw [ne_eq, h.state_iff, h.paused_iff]
    exact since_and_not_since_iff
  · exact h.inStep.entered (by rw [hstage]; nofun) (by rw [hstage]; nofun)

/-- A worker that is paused while its target is asked collects all the same, and when the round is
over it still reports that it collects. -/
theorem report_by_history_asked : ∃ events w, History {} events w ∧ w.AtRest ∧
    w.running = true ∧ w.paused = true ∧ w.state = .collecting ∧ Masked events := by
  have hasked : History {} _ _ :=
    .moved (.owner .pause) (.moved (.wake true) (.moved .enter (.moved .start .created trivial rfl)
      rfl rfl) ⟨_, rfl⟩ rfl) trivial rfl
  have hsettled : History {} _ _ :=
    .moved (.settle (.freed 1)) (.moved (.answer true) hasked ⟨_, rfl⟩ rfl) ⟨_, rfl⟩ rfl
  obtain ⟨-, hmasked, -⟩ := report_by_history hsettled
  exact ⟨_, _, hsettled, fun _ => ⟨nofun, nofun⟩, rfl, rfl, rfl, hmasked.mp ⟨rfl, nofun⟩⟩

/-- A worker may report a pause that is over, and a worker that runs and is paused may report
another state, between rounds in either case: the first if it is paused and resumed before it has
been started, the second if it is paused and then started. -/
theorem report_contradicts_pause :
    (¬∀ (p : Pacing) (events : List WorkerEvent) (w : Worker), History p events w → w.AtRest →
      w.state = .paused → w.paused = true) ∧
    ¬∀ (p : Pacing) (events : List WorkerEvent) (w : Worker), History p events w → w.AtRest →
      w.running = true → w.paused = true → w.state = .paused := by
  have hpaused : History {} _ _ := .moved (.owner .pause) .created trivial rfl
  constructor
  · intro hall
    have hresumed : History {} _ _ := .moved (.owner .resume) hpaused trivial rfl
    exact Bool.false_ne_true (hall _ _ _ hresumed (fun _ => ⟨nofun, nofun⟩) rfl)
  · intro hall
    have hentered : History {} _ _ :=
      .moved .enter (.moved .start hpaused trivial rfl) rfl rfl
    exact absurd (hall _ _ _ hentered (fun _ => ⟨nofun, nofun⟩) rfl rfl) nofun

end Worker

end Reclaim
