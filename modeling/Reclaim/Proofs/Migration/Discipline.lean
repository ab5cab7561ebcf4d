import Reclaim.Proofs.Migration.Run

/-!
# The phase of a run

Only the run in progress moves the phase. `Steps` is a run over the steps in which it touches the
phase or depends on it: how it moves the phase, how it searches for a victim, and the filesystem it
calls; with the plain steps it is the run itself (`Backend.steps_run`). A `Watch` stands beside each
of these steps. It raises an alarm when a move of the phase is refused, when a search or a call is
made in another phase than it should, and when a second run, which it asks for before and after
each of them, is not turned away. What an alarm does is left open.

A filesystem is passive if its operations leave the phase and the lock as they are while the lock is
held. A watched run over a passive filesystem is the run itself, so no alarm is ever raised, and
however the run ends, it leaves collection at rest (`run_keeps_discipline`). The proof follows the
run with the phase that it is in; a pass over a section stays in one phase, so there the watched
filesystem is in step with the plain one.
-/

namespace Reclaim

variable {σ α : Type}

/-- The phase of the run in progress. -/
def Act.phase : Act σ Phase := fun w => .ok (w.collector.progress.phase, w)

/-- The lock is held by a run that has come as far as it has. -/
def World.Held (p : Progress) (w : World σ) : Prop :=
  w.collector.locked = true ∧ w.collector.progress = p

/-- The lock is held by a run in progress, after a number of completed ones. -/
def World.Active (runs : UInt64) (w : World σ) : Prop :=
  ∃ phase, phase ≠ .rest ∧ w.Held ⟨phase, runs⟩

/-- A filesystem whose operations leave the phase and the lock as they are while the lock is held.
Whatever else they do, they may ask for another run. -/
structure Backend.Passive (b : Backend σ) : Prop where
  /-- The operations but the writing of checkpoints. -/
  preserves : ∀ p, b.Preserves (World.Held p)
  /-- Writing a checkpoint. -/
  writeCheckpoint : ∀ p, Act.Keeps (World.Held p) b.writeCheckpoint

/-! ## Runs over their steps -/

/-- The steps of a run that move the phase or depend on it. -/
structure Steps (σ : Type) where
  /-- The filesystem that is called. -/
  backend : Backend σ
  /-- Moves the phase, telling whether the move was allowed. -/
  move : (Progress → Bool × Progress) → Act σ Bool
  /-- Searches for a victim. -/
  search : Trigger → Act σ (Outcome ℕ)

namespace Steps

variable (s : Steps σ) (needed : ℕ)

/-- Turns a background run to the foreground, with a checkpoint, when free sections are short. -/
def escalate (r : RunReport) : Act σ (RunReport × Outcome Unit) := do
  let short ← Act.readArea (·.isShort r.freed needed)
  if r.trigger = .background ∧ short then
    let _ ← s.move Progress.toCheckpointing
    match ← s.backend.checkpoint with
    | .error status => return ({ r with trigger := .foreground }, .error status)
    | .ok () =>
      let _ ← s.move Progress.toSelecting
      return ({ r with trigger := .foreground }, .ok ())
  else
    return (r, .ok ())

/-- Collects a chosen section. -/
def pass (r : RunReport) (seg : ℕ) : Act σ (RunReport × Outcome Unit) := do
  let _ ← s.move Progress.toMigrating
  let result ← s.backend.collectSection seg r.trigger
  let _ ← s.move Progress.toSelecting
  let r := { r with passes := r.passes ++ [(r.trigger, seg)] }
  match r.trigger, result with
  | .foreground, .ok () =>
    Act.claim none
    if r.freed + 1 < 0x1_0000_0000 then
      return ({ r with freed := r.freed + 1 }, .ok ())
    else
      Act.stop .width
  | .foreground, .error status => return (r, .error status)
  | .background, .error .badState => return (r, .ok ())
  | .background, .ok () => return (r, .ok ())
  | .background, .error status => return (r, .error status)

/-- Makes passes until free sections are no longer short or no victim is left. -/
def passes : ℕ → RunReport → Act σ (RunReport × Outcome Unit)
  | 0, _ => Act.stop .runaway
  | bound + 1, r => do
    match ← s.escalate needed r with
    | (r, .error status) => return (r, .error status)
    | (r, .ok ()) =>
      match ← s.search r.trigger with
      | .error .unavailable => return (r, .ok ())
      | .error status => return (r, .error status)
      | .ok seg =>
        match ← s.pass r seg with
        | (r, .error status) => return (r, .error status)
        | (r, .ok ()) =>
          if ← Act.readArea (·.isShort r.freed needed) then
            passes bound r
          else
            return (r, .ok ())

/-- Ends a run whose passes went well. -/
def finish (r : RunReport) : Act σ (Outcome ℕ) := do
  match r.trigger with
  | .foreground =>
    let short ← Act.readArea (·.isShort 0 needed)
    if r.freed = 0 ∧ short then
      return .error .noSpace
    else
      let _ ← s.move Progress.toCheckpointing
      match ← s.backend.checkpoint with
      | .error status => return .error status
      | .ok () => return .ok r.freed
  | .background => if r.foundVictim then return .ok r.freed else return .error .unavailable

/-- The body of a run. -/
def runBody : Act σ (RunReport × Outcome ℕ) := do
  if ← s.backend.checkpointFailed then
    return (RunReport.initial, .error .badState)
  else
    let bound ← Act.readArea (·.passBound needed)
    match ← s.passes needed bound RunReport.initial with
    | (r, .error status) => return (r, .error status)
    | (r, .ok ()) =>
      let result ← s.finish needed r
      return (r, result)

/-- A run, with its report. -/
def run : Act σ (RunReport × Outcome ℕ) := do
  if ← s.move Progress.begin then
    let result ← s.runBody needed
    Act.claim none
    let _ ← s.move Progress.complete
    return result
  else
    return (RunReport.initial, .error .badState)

/-- Makes a run that holds the collection lock. -/
def runLocked : Act σ (Outcome ℕ) := do
  Act.lock true
  let (_, result) ← s.run needed
  Act.lock false
  return result

end Steps

namespace Backend

variable {b : Backend σ} {needed : ℕ}

/-- The steps of a run over a filesystem. -/
def steps (b : Backend σ) : Steps σ where
  backend := b
  move := Act.progress
  search trigger := Act.onArea (·.findVictim trigger none .wholeSection)

/-- The passes over the plain steps are the passes of a run. -/
theorem steps_passes (b : Backend σ) (needed bound : ℕ) (r : RunReport) :
    b.steps.passes needed bound r = b.passes needed bound r := by
  induction bound generalizing r with
  | zero => rfl
  | succ bound ih =>
    unfold Steps.passes passes
    simp only [ih]
    rfl

/-- The run over the plain steps is the run. -/
theorem steps_run (b : Backend σ) (needed : ℕ) : b.steps.run needed = b.run needed := by
  unfold Steps.run run Steps.runBody runBody
  simp only [steps_passes]
  rfl

/-- The run over the plain steps that holds the lock is the run that holds the lock. -/
theorem steps_runLocked (b : Backend σ) (needed : ℕ) :
    b.steps.runLocked needed = b.runLocked needed := by
  unfold Steps.runLocked runLocked
  rw [steps_run]

end Backend

/-! ## Watched runs -/

/-- What is done at an alarm, and the run that is asked for in between: over which filesystem, and
for how many blocks. -/
structure Watch (σ : Type) where
  /-- What is done at an alarm. -/
  alarm : Act σ Unit
  /-- The filesystem of the run that is asked for. -/
  other : Backend σ
  /-- The blocks that it is asked for. -/
  again : ℕ

namespace Watch

variable (watch : Watch σ)

/-- Raises the alarm unless all is well. -/
def expect (well : Bool) : Act σ Unit := if well then pure () else watch.alarm

/-- Expects a phase, and that another run is turned away. -/
def look (phase : Phase) : Act σ Unit := do
  let here ← Act.phase
  watch.expect (here = phase)
  let answer ← watch.other.tryRun watch.again
  watch.expect answer.isNone

/-- Looks before and after an operation. -/
def during (phase : Phase) (m : Act σ α) : Act σ α := do
  watch.look phase
  let x ← m
  watch.look phase
  return x

/-- A filesystem that is watched: passes are to call it while they migrate, checkpoints are to be
written in their phase, and the run is to ask for failed ones before it searches. -/
def watched (b : Backend σ) : Backend σ where
  summary seg := watch.during .migrating (b.summary seg)
  nodeInRange nid := watch.during .migrating (b.nodeInRange nid)
  nodePage nid := watch.during .migrating (b.nodePage nid)
  nodeInfo nid := watch.during .migrating (b.nodeInfo nid)
  placeNode page := watch.during .migrating (b.placeNode page)
  inode ino := watch.during .migrating (b.inode ino)
  isLinked inode := watch.during .migrating (b.isLinked inode)
  dataPage inode index := watch.during .migrating (b.dataPage inode index)
  placeData inode page := watch.during .migrating (b.placeData inode page)
  punch inode start stop evict := watch.during .migrating (b.punch inode start stop evict)
  writeback batch := watch.during .migrating (b.writeback batch)
  checkpointFailed := watch.during .selecting b.checkpointFailed
  writeCheckpoint := watch.during .checkpointing b.writeCheckpoint

/-- The steps of a watched run: no move of the phase is to be refused, and a victim is to be
searched in its phase. -/
def steps (b : Backend σ) : Steps σ where
  backend := watch.watched b
  move f := do
    let moved ← Act.progress f
    watch.expect moved
    return moved
  search trigger := watch.during .selecting (b.steps.search trigger)

end Watch

open Act

/-! ## Steps in their phase -/

section InPhase

variable {watch : Watch σ} {b : Backend σ} {phase : Phase} {runs : UInt64} {w : World σ}

/-- Another run is turned away while the lock is held. -/
theorem Backend.tryRun_of_locked (hw : w.collector.locked = true) (other : Backend σ) (again : ℕ) :
    other.tryRun again w = .ok (none, w) := by
  unfold tryRun
  rw [if_pos hw]

/-- Looking in the right phase does nothing. -/
theorem Watch.inStep_look :
    InStep (Both (World.Held ⟨phase, runs⟩)) (watch.look phase) (pure ()) := by
  rintro w _ ⟨rfl, hw⟩
  have hturned := Backend.tryRun_of_locked hw.1 watch.other watch.again
  have hlook : watch.look phase w = .ok ((), w) := by
    refine bind_eq_ok.mpr ⟨phase, w, ?_, bind_eq_ok.mpr ⟨(), w, ?_, ?_⟩⟩
    · show Except.ok (w.collector.progress.phase, w) = _
      rw [hw.2]
    · unfold expect
      rw [decide_eq_true rfl]
      rfl
    · exact bind_eq_ok.mpr ⟨none, w, hturned, rfl⟩
  rw [hlook]
  exact .give ⟨rfl, hw⟩

/-- A watched operation that stays in its phase is in step with the operation itself. -/
theorem Watch.inStep_during {m : Act σ α} (hm : Keeps (World.Held ⟨phase, runs⟩) m) :
    InStep (Both (World.Held ⟨phase, runs⟩)) (watch.during phase m) m := by
  have hlook : InStep (Both (World.Held ⟨phase, runs⟩)) (watch.look phase) (pure ()) :=
    Watch.inStep_look
  -- On the other side nothing is done in place of the two looks.
  have hrun := hlook.bind fun _ => hm.inStep.bind fun x => hlook.bind fun _ => inStep_pure x
  unfold during
  simpa only [pure_bind, bind_pure] using hrun

/-- A move of the phase that is allowed raises no alarm. -/
theorem Watch.move_eq (watch : Watch σ) (b : Backend σ) {f : Progress → Bool × Progress}
    {p : Progress} (hw : w.Held ⟨phase, runs⟩) (hf : f ⟨phase, runs⟩ = (true, p)) :
    (watch.steps b).move f w = b.steps.move f w ∧ b.steps.move f w =
      .ok (true, { w with collector := { w.collector with progress := p } }) := by
  have hmove : Act.progress f w =
      .ok (true, { w with collector := { w.collector with progress := p } }) := by
    unfold Act.progress
    rw [hw.2, hf]
  have hwatched : (watch.steps b).move f w =
      .ok (true, { w with collector := { w.collector with progress := p } }) :=
    bind_eq_ok.mpr ⟨true, _, hmove, rfl⟩
  exact ⟨hwatched.trans hmove.symm, hmove⟩

/-- A move of the phase that is allowed takes a run from one point to another. -/
theorem Watch.paired_move (f : Progress → Bool × Progress) {p : Progress}
    (hf : f ⟨phase, runs⟩ = (true, p)) :
    Paired (Both (World.Held ⟨phase, runs⟩)) ((watch.steps b).move f) (b.steps.move f)
      fun moved w' w => moved = true ∧ Both (World.Held p) w' w := by
  rintro w _ ⟨rfl, hw⟩
  have hmove := Watch.move_eq watch b hw hf
  rw [hmove.1, hmove.2]
  exact .give ⟨rfl, rfl, hw.1, rfl⟩

end InPhase

/-! ## A watched run is the run -/

section Held

variable {p : Progress}

/-- Operations of the area leave a run where it is. -/
theorem keeps_held_onArea (f : Area → Guarded (α × Area)) :
    Keeps (World.Held (σ := σ) p) (onArea f) := by
  intro w r w' hw h
  obtain ⟨area, -, rfl⟩ := onArea_eq_ok.mp h
  exact hw

/-- A search leaves a run where it is. -/
theorem Backend.keeps_held_search (b : Backend σ) (trigger : Trigger) :
    Keeps (World.Held p) (b.steps.search trigger) := by
  show Keeps _ (onArea fun a => a.findVictim trigger none .wholeSection)
  exact keeps_held_onArea _

/-- Claiming a section leaves a run where it is. -/
theorem keeps_held_claim (sec : Option ℕ) : Keeps (World.Held (σ := σ) p) (claim sec) := by
  intro w r w' hw h
  cases h
  exact hw

/-- A world in which a run stands at a point is coupled to itself. -/
theorem coupling_held (p : Progress) : Coupling (Both (World.Held (σ := σ) p)) where
  area hw := by rw [hw.1]
  pages hw := by rw [hw.1]
  count _ hw := ⟨by rw [hw.1], hw.2⟩
  mark _ hw := ⟨by rw [hw.1], hw.2⟩

end Held

namespace Watch

variable {watch : Watch σ} {b : Backend σ} {phase : Phase} {runs : UInt64} {needed : ℕ}

/-- What holds after a step of the passes: a run that goes on is back at the search, and one that
does not is still in progress. -/
def After (runs : UInt64) : Outcome Unit → World σ → World σ → Prop
  | .ok _ => Both (World.Held ⟨.selecting, runs⟩)
  | .error _ => Both (World.Active runs)

/-- A run that stands in a phase is in progress. -/
theorem active_of_held (hphase : phase ≠ .rest) {w' w : World σ}
    (h : Both (World.Held ⟨phase, runs⟩) w' w) : Both (World.Active runs) w' w :=
  ⟨h.1, phase, hphase, h.2⟩

/-- A move of the phase that is allowed, without its answer. -/
theorem paired_moved (f : Progress → Bool × Progress) {p : Progress}
    (hf : f ⟨phase, runs⟩ = (true, p)) :
    Paired (Both (World.Held ⟨phase, runs⟩)) ((watch.steps b).move f) (b.steps.move f)
      fun _ => Both (World.Held p) :=
  (paired_move f hf).mono (fun _ _ hw => hw) fun _ _ _ hw => hw.2

/-- Giving up the claim on a section leaves a run in progress. -/
theorem paired_unclaim : Paired (Both (World.Active (σ := σ) runs)) (claim none) (claim none)
    fun _ => Both fun w => w.Active runs ∧ w.area.claimed = none := by
  rintro w _ ⟨rfl, hw⟩
  exact .give ⟨rfl, hw, rfl⟩

/-- A run is ended from each of its phases. -/
theorem paired_complete :
    Paired (Both fun w => w.Active runs ∧ w.area.claimed = none)
      ((watch.steps b).move Progress.complete) (b.steps.move Progress.complete)
      fun _ => Both fun w => w.Held ⟨.rest, runs + 1⟩ ∧ w.area.claimed = none := by
  -- The body may have failed in any phase but rest, and from each of these the run can be ended.
  rintro w _ ⟨rfl, ⟨phase, hphase, hw⟩, hclaimed⟩
  have hended : Progress.complete ⟨phase, runs⟩ = (true, ⟨.rest, runs + 1⟩) := if_neg hphase
  have hmove := Watch.move_eq watch b hw hended
  rw [hmove.1, hmove.2]
  exact .give ⟨rfl, ⟨hw.1, rfl⟩, hclaimed⟩

section

variable (hb : b.Passive)

include hb

/-- The operations that passes call are in step with the watched ones while the run migrates. -/
theorem inStep_watched :
    Backend.InStep (Both (World.Held ⟨.migrating, runs⟩)) (watch.watched b) b where
  summary seg := inStep_during ((hb.preserves _).summary seg)
  nodeInRange nid := inStep_during ((hb.preserves _).nodeInRange nid)
  nodePage nid := inStep_during ((hb.preserves _).nodePage nid)
  nodeInfo nid := inStep_during ((hb.preserves _).nodeInfo nid)
  placeNode page := inStep_during ((hb.preserves _).placeNode page)
  inode ino := inStep_during ((hb.preserves _).inode ino)
  isLinked inode := inStep_during ((hb.preserves _).isLinked inode)
  dataPage inode index := inStep_during ((hb.preserves _).dataPage inode index)
  placeData inode page := inStep_during ((hb.preserves _).placeData inode page)
  punch inode start stop evict := inStep_during ((hb.preserves _).punch inode start stop evict)
  writeback batch := inStep_during ((hb.preserves _).writeback batch)

/-- A watched checkpoint is in step in its phase. -/
theorem inStep_checkpoint : Act.InStep (Both (World.Held ⟨.checkpointing, runs⟩))
    (watch.steps b).backend.checkpoint b.steps.backend.checkpoint := by
  unfold Backend.checkpoint
  refine Act.InStep.bind (inStep_during (hb.writeCheckpoint _)) fun written => ?_
  cases written with
  | error status => exact inStep_pure _
  | ok _ => exact (keeps_held_onArea _).inStep.bind fun _ => inStep_pure _

/-- Turning to the foreground takes a run through the checkpoint phase and back to the search. -/
theorem paired_escalate (r : RunReport) :
    Paired (Both (World.Held ⟨.selecting, runs⟩)) ((watch.steps b).escalate needed r)
      (b.steps.escalate needed r) fun x => After runs x.2 := by
  unfold Steps.escalate
  refine Paired.bind (inStep_readArea (coupling_held _) _) fun short => ?_
  split_ifs
  · refine (paired_moved Progress.toCheckpointing rfl).bind fun _ =>
      Paired.bind (inStep_checkpoint hb) fun checked => ?_
    cases checked with
    | error status => exact paired_pure fun _ _ => active_of_held (by decide)
    | ok _ =>
      exact (paired_moved Progress.toSelecting rfl).bind fun _ => paired_pure fun _ _ hw => hw
  · exact paired_pure fun _ _ hw => hw

/-- A pass takes a run through the migration phase and back to the search, however it ends. -/
theorem paired_pass (r : RunReport) (seg : ℕ) :
    Paired (Both (World.Held ⟨.selecting, runs⟩)) ((watch.steps b).pass r seg)
      (b.steps.pass r seg) fun x => After runs x.2 := by
  obtain ⟨trigger, freed, made⟩ := r
  unfold Steps.pass
  refine (paired_moved Progress.toMigrating rfl).bind fun _ =>
    Paired.bind (Backend.inStep_collectSection (coupling_held _) (inStep_watched hb) seg trigger)
      fun result => (paired_moved Progress.toSelecting rfl).bind fun _ => ?_
  cases trigger with
  | foreground =>
    cases result with
    | error status => exact paired_pure fun _ _ => active_of_held (by decide)
    | ok _ =>
      refine Paired.bind (keeps_held_claim none).inStep fun _ => ?_
      split_ifs
      · exact paired_pure fun _ _ hw => hw
      · exact fun _ _ _ => .stop _
  | background =>
    cases result with
    | error status =>
      -- A background pass that has given way is no failure; every other error ends the passes.
      cases status with
      | badState => exact paired_pure fun _ _ hw => hw
      | _ => exact paired_pure fun _ _ => active_of_held (by decide)
    | ok _ => exact paired_pure fun _ _ hw => hw

/-- Passes begin and go on at the search. -/
theorem paired_passes (bound : ℕ) (r : RunReport) :
    Paired (Both (World.Held ⟨.selecting, runs⟩)) ((watch.steps b).passes needed bound r)
      (b.steps.passes needed bound r) fun x => After runs x.2 := by
  induction bound generalizing r with
  | zero => exact fun _ _ _ => .stop _
  | succ bound ih =>
    unfold Steps.passes
    refine (paired_escalate hb r).bind fun escalated => ?_
    obtain ⟨r, escalated⟩ := escalated
    cases escalated with
    | error status => exact paired_pure fun _ _ hw => hw
    | ok _ =>
      refine Paired.bind (inStep_during (b.keeps_held_search _)) fun found => ?_
      cases found with
      | error status =>
        -- Without a victim the passes end well, in the phase in which the run is finished.
        cases status with
        | unavailable => exact paired_pure fun _ _ hw => hw
        | _ => exact paired_pure fun _ _ => active_of_held (by decide)
      | ok seg =>
        refine (paired_pass hb r seg).bind fun passed => ?_
        obtain ⟨r, passed⟩ := passed
        cases passed with
        | error status => exact paired_pure fun _ _ hw => hw
        | ok _ =>
          refine Paired.bind (inStep_readArea (coupling_held _) _) fun short => ?_
          split_ifs
          · exact ih r
          · exact paired_pure fun _ _ hw => hw

/-- A run whose passes went well ends at the search or in the checkpoint phase. -/
theorem paired_finish (r : RunReport) :
    Paired (Both (World.Held ⟨.selecting, runs⟩)) ((watch.steps b).finish needed r)
      (b.steps.finish needed r) fun _ => Both (World.Active runs) := by
  unfold Steps.finish
  cases r.trigger with
  | foreground =>
    refine Paired.bind (inStep_readArea (coupling_held _) _) fun short => ?_
    split_ifs
    · exact paired_pure fun _ _ => active_of_held (by decide)
    · refine (paired_moved Progress.toCheckpointing rfl).bind fun _ =>
        Paired.bind (inStep_checkpoint hb) fun checked => ?_
      cases checked <;> exact paired_pure fun _ _ => active_of_held (by decide)
  | background =>
    dsimp only
    split_ifs <;> exact paired_pure fun _ _ => active_of_held (by decide)

/-- The body of a run begins at the search and ends in some phase of the run. -/
theorem paired_runBody :
    Paired (Both (World.Held ⟨.selecting, runs⟩)) ((watch.steps b).runBody needed)
      (b.steps.runBody needed) fun _ => Both (World.Active runs) := by
  unfold Steps.runBody
  refine Paired.bind (inStep_during (hb.preserves _).checkpointFailed) fun failed => ?_
  split_ifs
  · exact paired_pure fun _ _ => active_of_held (by decide)
  · refine Paired.bind (inStep_readArea (coupling_held _) _) fun bound =>
      (paired_passes hb bound _).bind fun passed => ?_
    obtain ⟨r, passed⟩ := passed
    cases passed with
    | error status => exact paired_pure fun _ _ hw => hw
    | ok _ => exact (paired_finish hb r).bind fun _ => paired_pure fun _ _ hw => hw

/-- A run leaves rest and returns to it, counted and with no section claimed. -/
theorem paired_run :
    Paired (Both (World.Held ⟨.rest, runs⟩)) ((watch.steps b).run needed) (b.steps.run needed)
      fun _ => Both fun w => w.Held ⟨.rest, runs + 1⟩ ∧ w.area.claimed = none := by
  unfold Steps.run
  refine (paired_move Progress.begin rfl).bind fun began => ?_
  -- At rest the beginning cannot be refused.
  cases began with
  | false => exact fun w' w hw => absurd hw.1 Bool.false_ne_true
  | true =>
    refine Paired.mono (Paired.bind (paired_runBody hb) fun result =>
      Paired.bind paired_unclaim fun _ => Paired.bind paired_complete fun _ => paired_pure ?_)
      (fun _ _ hw => hw.2) fun _ _ _ hw => hw
    exact fun _ _ hw => hw

/-- A run that takes the lock gives it back. -/
theorem paired_runLocked (watch : Watch σ) :
    Paired (Both fun w => w.collector.progress.phase = .rest ∧ w.collector.progress.runs = runs)
      ((watch.steps b).runLocked needed) (b.steps.runLocked needed) fun _ => Both fun w =>
        w.collector.progress = ⟨.rest, runs + 1⟩ ∧ w.collector.locked = false ∧
          w.area.claimed = none := by
  unfold Steps.runLocked
  refine Paired.bind (Q := fun _ => Both (World.Held ⟨.rest, runs⟩)) ?_ fun _ =>
    (paired_run hb).bind fun _ => ?_
  · rintro w _ ⟨rfl, hphase, hruns⟩
    exact .give ⟨rfl, rfl, by rw [← hphase, ← hruns]⟩
  · rintro w _ ⟨rfl, hw, hclaimed⟩
    exact .give ⟨rfl, hw.2, rfl, hclaimed⟩

end

end Watch

/-! ## Passive filesystems -/

/-- Asking for another run leaves a run where it is. -/
theorem keeps_held_tryRun {p : Progress} (b : Backend σ) (needed : ℕ) :
    Keeps (World.Held p) (b.tryRun needed) := by
  intro w r w' hw h
  rw [b.tryRun_of_locked hw.1] at h
  cases h
  exact hw

namespace Volume

variable {ι ρ : Type}

/-- The steps of the volume leave a run where it is. -/
theorem steady_held (p : Progress) : Steady (World.Held (σ := Volume ι ρ) p) where
  host _ _ hw := hw
  pages _ _ hw := hw
  append _ := (keeps_read _).bind fun _ => keeps_held_onArea _
  release _ := keeps_held_onArea _

/-- The volume is passive if the actions of interruptions leave a run where it is. -/
theorem backend_passive {handler : ι → Act (Volume ι ρ) ρ}
    (hhandler : ∀ p action, Keeps (World.Held p) (handler action)) : (backend handler).Passive where
  preserves p := backend_preserves (hhandler p) (steady_held p)
  writeCheckpoint p := keeps_writeCheckpoint (hhandler p) (steady_held p).host

/-- An action that asks for another run and for the phase: whether the run is turned away, and the
phase. -/
def reenter : Unit → Act (Volume Unit (Bool × Phase)) (Bool × Phase) := fun _ => do
  let answer ← (backend fun _ => return (true, ← phase)).tryRun 7
  return (answer.isNone, ← phase)

/-- The answers of the actions in a trace, in the order of the trace. -/
def answers (v : Volume ι ρ) : List ρ :=
  v.trace.filterMap fun
    | .call _ => none
    | .interrupted answer => some answer

/-- The same files and faults, to be interrupted otherwise. -/
def scripted {ι' ρ' : Type} (v : Volume ι ρ) (interruptions : List (Interruption ι')) :
    Volume ι' ρ' :=
  { v with interruptions, trace := [] }

/-- The volume over `reenter` is passive. -/
theorem reenter_passive : (backend reenter).Passive :=
  backend_passive fun _ _ => (keeps_held_tryRun _ _).bind fun _ => keeps_phase.bind fun _ =>
    keeps_pure _

end Volume

/-- A world of one node, in which the first checkpoint and the first load of the node are
interrupted, and the node cannot be given a new block. -/
def interruptedNode (a : Area) : World (Volume Unit (Bool × Phase)) :=
  let v := Volume.oneNode 2 73 4 [⟨"naddr", none, .ioError, 0, none⟩]
  ⟨a, Collector.initial, ⟨[], 1⟩, v.scripted [⟨"cp", 1, [()]⟩, ⟨"npage", 1, [()]⟩]⟩

/-! ## Collection over time -/

/-- The worlds of a volume in use: collection is fresh at first, and then it makes runs over passive
filesystems, while everything else leaves its phase and its lock alone. -/
inductive Attended : World σ → Prop
  /-- No run has been made yet. -/
  | fresh {w : World σ} (h : w.collector = Collector.initial) : Attended w
  /-- Something else has happened. -/
  | outside {w w' : World σ} (hw : Attended w)
      (hprogress : w'.collector.progress = w.collector.progress)
      (hlocked : w'.collector.locked = w.collector.locked) : Attended w'
  /-- A run has waited for the lock and returned. -/
  | started {w w' : World σ} {b : Backend σ} {needed : ℕ} {r : Outcome ℕ} (hw : Attended w)
      (hb : b.Passive) (h : b.startRun needed w = .ok (r, w')) : Attended w'
  /-- A run has tried the lock and returned. -/
  | tried {w w' : World σ} {b : Backend σ} {needed : ℕ} {r : Option (Outcome ℕ)} (hw : Attended w)
      (hb : b.Passive) (h : b.tryRun needed w = .ok (r, w')) : Attended w'

section

variable {w : World σ} {b : Backend σ} {needed : ℕ}

/-- A run begun at rest raises no alarm. -/
theorem Watch.runLocked_eq (hb : b.Passive) (hw : w.collector.progress.phase = .rest)
    (watch : Watch σ) : (watch.steps b).runLocked needed w = b.runLocked needed w := by
  rw [← b.steps_runLocked]
  exact (Paired.same (paired_runLocked hb watch) ⟨hw, rfl⟩).1

/-- A run begun at rest is counted and leaves collection at rest and unlocked, with no section
claimed. -/
theorem Backend.Passive.rests (hb : b.Passive) (hw : w.collector.progress.phase = .rest)
    {r : Outcome ℕ} {w' : World σ} (h : b.runLocked needed w = .ok (r, w')) :
    w'.collector.progress = ⟨.rest, w.collector.progress.runs + 1⟩ ∧
      w'.collector.locked = false ∧ w'.area.claimed = none := by
  rw [← b.steps_runLocked] at h
  -- Any watch will do, since it makes no difference to the run.
  exact (Paired.same (Watch.paired_runLocked hb ⟨pure (), b, needed⟩) ⟨hw, rfl⟩).2 r w' h

/-- An unlocked run is one that takes the lock. -/
theorem Backend.startRun_of_unlocked (hw : w.collector.locked = false) :
    b.startRun needed w = b.runLocked needed w := by
  unfold startRun
  rw [hw]
  exact if_neg Bool.false_ne_true

/-- An unlocked try is a run. -/
theorem Backend.tryRun_of_unlocked (hw : w.collector.locked = false) :
    b.tryRun needed w = (some <$> b.runLocked needed) w := by
  unfold tryRun
  rw [hw]
  exact if_neg Bool.false_ne_true

/-- Between runs collection is at rest and unlocked. -/
theorem Attended.idle (hw : Attended w) :
    w.collector.progress.phase = .rest ∧ w.collector.locked = false := by
  -- Induction on the history: a run leaves collection idle because it has found it so.
  induction hw with
  | fresh h =>
    rw [h]
    exact ⟨rfl, rfl⟩
  | outside _ hprogress hlocked ih => rwa [hprogress, hlocked]
  | started _ hb h ih =>
    rw [Backend.startRun_of_unlocked ih.2] at h
    obtain ⟨hprogress, hlocked, -⟩ := hb.rests ih.1 h
    exact ⟨congrArg Progress.phase hprogress, hlocked⟩
  | tried _ hb h ih =>
    rw [Backend.tryRun_of_unlocked ih.2, map_eq_pure_bind] at h
    obtain ⟨result, w₁, hrun, hanswer⟩ := bind_eq_ok.mp h
    cases hanswer
    obtain ⟨hprogress, hlocked, -⟩ := hb.rests ih.1 hrun
    exact ⟨congrArg Progress.phase hprogress, hlocked⟩

/-- What a run over a passive filesystem does, whenever it is made. While the lock is held, other
runs are turned away and change nothing. Otherwise the run takes the lock and takes its steps, and
watching these makes no difference: every move of the phase is allowed, victims are searched, passes
call the filesystem and checkpoints are written in the phases meant for these, and another run is
turned away before and after each of them. When the run returns, with whatever answer, collection is
at rest and unlocked, one more run is counted, and no section is claimed. -/
theorem Attended.run_keeps_discipline (hw : Attended w) (hb : b.Passive) (needed : ℕ) :
    (∀ (other : Backend σ) (again : ℕ) (v : World σ), v.collector.locked = true →
        other.tryRun again v = .ok (none, v)) ∧
      b.startRun needed w = b.runLocked needed w ∧
      b.tryRun needed w = (some <$> b.runLocked needed) w ∧
      b.steps.runLocked needed w = b.runLocked needed w ∧
      (∀ watch : Watch σ, (watch.steps b).runLocked needed w = b.runLocked needed w) ∧
      ∀ r w', b.runLocked needed w = .ok (r, w') →
        w'.collector.progress = ⟨.rest, w.collector.progress.runs + 1⟩ ∧
          w'.collector.locked = false ∧ w'.area.claimed = none := by
  obtain ⟨hrest, hunlocked⟩ := hw.idle
  exact ⟨fun other again v hv => other.tryRun_of_locked hv again,
    Backend.startRun_of_unlocked hunlocked, Backend.tryRun_of_unlocked hunlocked,
    congrFun (b.steps_runLocked needed) w, Watch.runLocked_eq hb hrest,
    fun r w' h => hb.rests hrest h⟩

end

/-- A run whose pass fails while a section is claimed, and that is asked for another run in its
first checkpoint and in its pass. -/
theorem Attended.run_keeps_discipline_reentered :
    ∃ w w' : World (Volume Unit (Bool × Phase)), Attended w ∧
      (Volume.backend Volume.reenter).startRun 0 w = .ok (.error .ioError, w') ∧
      w'.host.answers = [(true, .migrating), (true, .checkpointing)] ∧
      (∀ watch : Watch (Volume Unit (Bool × Phase)),
        (watch.steps (Volume.backend Volume.reenter)).runLocked 0 w =
          .ok (.error .ioError, w')) ∧
      w'.collector.progress = ⟨.rest, 1⟩ ∧ w'.collector.locked = false ∧
      w'.area.claimed = none := by
  obtain ⟨a₀, events, a, -, -, h⟩ := Area.Run.of_reaches Backend.crowdedLayout Backend.crowding
    (fun _ a => ((Volume.backend Volume.reenter).startRun 0 (interruptedNode a)).toOption.map
      (fun x => (x.1, x.2.host.answers)) =
        some (.error .ioError, [(true, .migrating), (true, .checkpointing)]))
    (by decide +kernel)
  have hw : Attended (interruptedNode a) := .fresh rfl
  have hend := of_decide_eq_true h
  cases hrun : (Volume.backend Volume.reenter).startRun 0 (interruptedNode a) with
  | error t =>
    rw [hrun] at hend
    cases hend
  | ok x =>
    obtain ⟨result, w'⟩ := x
    rw [hrun] at hend
    obtain ⟨hresult, hanswers⟩ := Prod.mk.inj (Option.some.inj hend)
    obtain rfl : result = .error .ioError := hresult
    obtain ⟨-, hstart, -, -, hwatched, hrests⟩ := hw.run_keeps_discipline Volume.reenter_passive 0
    rw [hstart] at hrun
    exact ⟨interruptedNode a, w', hw, hstart.trans hrun, hanswers,
      fun watch => (hwatched watch).trans hrun, hrests _ w' hrun⟩

end Reclaim
