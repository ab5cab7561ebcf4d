import Mathlib.Tactic.Common
import Reclaim.Background.Session
import Reclaim.Proofs.Guarded

/-!
# How long the background worker sleeps

A round that lengthens the sleep ends within the configured range wherever it began, and one that
shortens it never goes below the shortest sleep. Only a round without a victim may leave the range:
its sleep has a length of its own, and nothing takes a successful round after it back below the
longest sleep. `Pacing.sinceIdle` counts those rounds, `Pacing.Paced` says what the sleep is by
their number, and one round keeps it (`Pacing.Paced.nextSleep`). From the first sleep on this holds
of every session of a worker (`Worker.sleeps_paced`).
-/

namespace Reclaim

/-- How a round of a script goes. -/
def RoundScript.outcome (script : RoundScript) : RoundOutcome :=
  if script.worthwhile then RoundOutcome.ofRun script.run else .notWorthwhile

namespace Pacing

variable {p : Pacing} {since : Option ℕ} {wait wait' : ℕ}

/-! ## One sleep after the other -/

/-- A lengthened sleep is in the range, unless it is too long to be represented. -/
theorem lengthen_cases (hrange : p.minSleep ≤ p.maxSleep) (wait : ℕ) :
    (p.lengthen wait = .error .width ∧ timeLimit ≤ wait + p.minSleep) ∨
      ∃ wait', p.lengthen wait = .ok wait' ∧ p.minSleep ≤ wait' ∧ wait' ≤ p.maxSleep := by
  unfold lengthen
  split_ifs with hfits
  · exact Or.inr ⟨_, rfl, by omega, Nat.min_le_right _ _⟩
  · exact Or.inl ⟨rfl, Nat.le_of_not_lt hfits⟩

/-- A round carries on the number of successful rounds since the last one without a victim, as long
as none lengthens the sleep. -/
def after (since : Option ℕ) : RoundOutcome → Option ℕ
  | .notWorthwhile => none
  | .busy => since
  | .freed _ => since.map (· + 1)
  | .noVictim => some 0
  | .failed _ => none

/-- The number of successful rounds since the last one without a victim, if no round has lengthened
the sleep since then. -/
def sinceIdle (outcomes : List RoundOutcome) : Option ℕ := outcomes.foldl after none

/-- What a sleep is, by the number of successful rounds since the last one without a victim. -/
structure Paced (p : Pacing) (since : Option ℕ) (wait : ℕ) : Prop where
  /-- If there was no such round, or the sleep has been lengthened since, it is in the range. -/
  in_range : since = none → p.minSleep ≤ wait ∧ wait ≤ p.maxSleep
  /-- Right after such a round, and after busy ones behind it, the sleep has its own length. -/
  idle : since = some 0 → wait = p.idleSleep
  /-- Each successful round takes the shortest sleep off that, down to the shortest. -/
  shortened : ∀ n, since = some (n + 1) →
    wait = max (p.idleSleep - (n + 1) * p.minSleep) p.minSleep

/-- No sleep is longer than both the longest one and the one after a round without a victim. -/
theorem Paced.le_max (h : p.Paced since wait) (hrange : p.minSleep ≤ p.maxSleep) :
    wait ≤ max p.maxSleep p.idleSleep := by
  match since, h with
  | none, h => exact (h.in_range rfl).2.trans (Nat.le_max_left _ _)
  | some 0, h => exact (h.idle rfl).le.trans (Nat.le_max_right _ _)
  | some (n + 1), h =>
    rw [h.shortened n rfl]
    omega

/-- After a successful round the sleep is longer than the longest one exactly if the sleep after a
round without a victim exceeds it by more than has been taken off since. -/
theorem Paced.maxSleep_lt_iff {n : ℕ} (h : p.Paced (some (n + 1)) wait)
    (hrange : p.minSleep ≤ p.maxSleep) :
    p.maxSleep < wait ↔ p.maxSleep + (n + 1) * p.minSleep < p.idleSleep := by
  rw [h.shortened n rfl]
  omega

/-- A round chooses the next sleep by the same rule, unless the sleep is too long to be
represented. -/
theorem Paced.nextSleep (h : p.Paced since wait) (hrange : p.minSleep ≤ p.maxSleep)
    (outcome : RoundOutcome) :
    (p.nextSleep wait outcome = .error .width ∧
      timeLimit ≤ p.minSleep + max p.maxSleep p.idleSleep) ∨
      ∃ wait', p.nextSleep wait outcome = .ok wait' ∧ p.Paced (after since outcome) wait' := by
  have hle := h.le_max hrange
  -- Rounds that lengthen the sleep forget what was before.
  have hlonger : (p.lengthen wait = .error .width ∧
      timeLimit ≤ p.minSleep + max p.maxSleep p.idleSleep) ∨
      ∃ wait', p.lengthen wait = .ok wait' ∧ p.Paced none wait' := by
    rcases lengthen_cases hrange wait with ⟨htrap, hlong⟩ | ⟨wait', hlonger, hmin, hmax⟩
    · exact Or.inl ⟨htrap, by omega⟩
    · exact Or.inr ⟨wait', hlonger, fun _ => ⟨hmin, hmax⟩, nofun, nofun⟩
  cases outcome with
  | notWorthwhile => exact hlonger
  | failed status => exact hlonger
  | busy => exact Or.inr ⟨wait, rfl, h⟩
  | noVictim => exact Or.inr ⟨p.idleSleep, rfl, nofun, fun _ => rfl, nofun⟩
  | freed sections =>
    refine Or.inr ⟨p.shorten wait, rfl, ?_⟩
    unfold shorten after
    match since, h with
    | none, h =>
      obtain ⟨hmin, hmax⟩ := h.in_range rfl
      exact ⟨fun _ => by omega, nofun, nofun⟩
    | some 0, h =>
      refine ⟨nofun, nofun, fun n hn => ?_⟩
      cases hn
      rw [h.idle rfl, Nat.zero_add, Nat.one_mul]
    | some (n + 1), h =>
      refine ⟨nofun, nofun, fun m hm => ?_⟩
      cases hm
      rw [h.shortened n rfl, Nat.succ_mul (n + 1)]
      omega

end Pacing

namespace Worker

variable {w : Worker} {p : Pacing} {since : Option ℕ} {wait wait' : ℕ}

/-! ## Sessions -/

/-- A worker that sleeps for a length of time and then asks its target. -/
structure Sleeps (w : Worker) (p : Pacing) (wait : ℕ) : Prop where
  /-- It is paced as configured. -/
  pacing : w.pacing = p
  /-- It is not paused. -/
  awake : w.paused = false
  /-- Its loop is asleep. -/
  stage : w.stage = .asleep wait

/-- What a worker is after the choice of a sleep. -/
structure Dozes (w : Worker) (wait : ℕ) (w' : Worker) : Prop where
  /-- It is paced as before. -/
  pacing : w'.pacing = w.pacing
  /-- It is paused if it was before. -/
  paused : w'.paused = w.paused
  /-- Its loop is asleep. -/
  stage : w'.stage = .asleep wait

/-- A worker goes to sleep when the length of its sleep can be chosen. -/
theorem sleep_cases (w : Worker) (wait : ℕ) (outcome : RoundOutcome) :
    (∃ t, w.pacing.nextSleep wait outcome = .error t ∧ w.sleep wait outcome = .error t) ∨
      ∃ wait' w', w.pacing.nextSleep wait outcome = .ok wait' ∧ w.sleep wait outcome = .ok w' ∧
        w.Dozes wait' w' := by
  unfold sleep
  cases w.pacing.nextSleep wait outcome with
  | error t => exact Or.inl ⟨t, rfl, rfl⟩
  | ok wait' => exact Or.inr ⟨wait', _, rfl, rfl, rfl, rfl, rfl⟩

/-- So does a worker whose target has collected. -/
theorem settle_cases (hstage : w.stage = .collecting wait) (outcome : RoundOutcome) :
    (∃ t, w.pacing.nextSleep wait outcome = .error t ∧ w.settle outcome = .error t) ∨
      ∃ wait' w', w.pacing.nextSleep wait outcome = .ok wait' ∧ w.settle outcome = .ok w' ∧
        w.Dozes wait' w' := by
  unfold settle
  rw [hstage]
  dsimp only
  rcases sleep_cases { w with rounds := count w.rounds outcome, stage := .collecting wait } wait
      outcome with
    ⟨t, hnext, hsleep⟩ | ⟨wait', w', hnext, hsleep, hdozes⟩
  · exact Or.inl ⟨t, hnext, by rw [hsleep]; rfl⟩
  · rw [hsleep, Guarded.ok_bind]
    split_ifs
    · exact Or.inr ⟨wait', w', hnext, rfl, hdozes.pacing, hdozes.paused, hdozes.stage⟩
    · exact Or.inr ⟨wait', _, hnext, rfl, hdozes.pacing, hdozes.paused, hdozes.stage⟩

/-- A round that was asked for ends with the choice of the next sleep, whether or not the target
collects in it. -/
theorem round_cases (hstage : w.stage = .asking wait) (script : RoundScript) :
    (∃ t, w.pacing.nextSleep wait script.outcome = .error t ∧
      (w.answer script.worthwhile = .error t ∨ ∃ answered, w.answer script.worthwhile =
        .ok answered ∧ answered.settle (RoundOutcome.ofRun script.run) = .error t)) ∨
    ∃ wait' answered settled, w.pacing.nextSleep wait script.outcome = .ok wait' ∧
      w.answer script.worthwhile = .ok answered ∧
      answered.settle (RoundOutcome.ofRun script.run) = .ok settled ∧ w.Dozes wait' settled := by
  unfold answer RoundScript.outcome
  rw [hstage]
  dsimp only
  split_ifs with hworth
  · have hcollects : ({ w with state := .collecting, stage := .collecting wait } : Worker).stage =
        .collecting wait := rfl
    rcases settle_cases hcollects (RoundOutcome.ofRun script.run) with
      ⟨t, hnext, hsettle⟩ | ⟨wait', w', hnext, hsettle, hdozes⟩
    · exact Or.inl ⟨t, hnext, Or.inr ⟨_, rfl, hsettle⟩⟩
    · exact Or.inr ⟨wait', _, w', hnext, rfl, hsettle, hdozes.pacing, hdozes.paused, hdozes.stage⟩
  · rcases w.sleep_cases wait .notWorthwhile with
      ⟨t, hnext, hsleep⟩ | ⟨wait', w', hnext, hsleep, hdozes⟩
    · exact Or.inl ⟨t, hnext, Or.inl hsleep⟩
    · -- A worker that is asleep has no round to settle.
      have hrests : w'.settle (RoundOutcome.ofRun script.run) = .ok w' := by
        unfold settle
        rw [hdozes.stage]
        rfl
      exact Or.inr ⟨wait', w', w', hnext, hsleep, hrests, hdozes⟩

/-- A worker that sleeps asks its target when it wakes. -/
theorem Sleeps.wake_eq (h : w.Sleeps p wait) : w.wake true = { w with stage := .asking wait } := by
  unfold wake
  rw [h.stage, h.awake]
  rfl

/-- A worker that has gone to sleep is not paused any more once it is resumed. -/
theorem resume_sleeps (hstage : w.stage = .asleep wait) : w.resume.Sleeps w.pacing wait := by
  unfold resume
  split_ifs
  · exact ⟨rfl, rfl, hstage⟩
  · exact ⟨rfl, rfl, hstage⟩

/-- A round of a session ends with the choice of the next sleep. -/
theorem Sleeps.play_cases (h : w.Sleeps p wait) (script : RoundScript) :
    (∃ t, p.nextSleep wait script.outcome = .error t ∧ w.play script = .error t) ∨
      ∃ wait' view w', p.nextSleep wait script.outcome = .ok wait' ∧
        w.play script = .ok (view, w') ∧ w'.Sleeps p wait' := by
  have hpacing := h.pacing
  have hawake := h.awake
  unfold play
  rw [h.wake_eq]
  dsimp only
  -- The worker is asked, paused meanwhile or not.
  generalize hheld : (if script.pauses = true then
    ({ w with stage := .asking wait } : Worker).pause else { w with stage := .asking wait }) = held
  have hasked : held.stage = .asking wait ∧ held.pacing = p ∧ (script.pauses = false →
      held.paused = false) := by
    subst hheld
    split_ifs with hpauses
    · exact ⟨rfl, hpacing, fun hnot => absurd hpauses (by simp [hnot])⟩
    · exact ⟨rfl, hpacing, fun _ => hawake⟩
  obtain ⟨hstage, rfl, hunpaused⟩ := hasked
  rcases round_cases hstage script with ⟨t, hnext, hanswer | ⟨answered, hanswer, hsettle⟩⟩ |
    ⟨wait', answered, settled, hnext, hanswer, hsettle, hdozes⟩
  · exact Or.inl ⟨t, hnext, by rw [hanswer]; rfl⟩
  · exact Or.inl ⟨t, hnext, by rw [hanswer, Guarded.ok_bind, hsettle]; rfl⟩
  · rw [hanswer, Guarded.ok_bind, hsettle, Guarded.ok_bind]
    refine Or.inr ⟨wait', _, _, hnext, rfl, ?_⟩
    rw [← hdozes.pacing]
    split_ifs with hpauses
    · exact resume_sleeps hdozes.stage
    · have hfree := hunpaused (Bool.eq_false_iff.mpr hpauses)
      exact ⟨rfl, hdozes.paused.trans hfree, hdozes.stage⟩

/-- Through the rounds of a session the sleep stays paced, unless it becomes too long to be
represented. -/
theorem Sleeps.playAll_cases (hrange : p.minSleep ≤ p.maxSleep) :
    ∀ (scripts : List RoundScript) {w : Worker} {since : Option ℕ} {wait : ℕ},
      w.Sleeps p wait → p.Paced since wait →
      (w.playAll scripts = .error .width ∧
        timeLimit ≤ p.minSleep + max p.maxSleep p.idleSleep) ∨
      ∃ views w' wait', w.playAll scripts = .ok (views, w') ∧ w'.Sleeps p wait' ∧
        p.Paced ((scripts.map RoundScript.outcome).foldl Pacing.after since) wait'
  | [], w, since, wait, hsleeps, hpaced => Or.inr ⟨[], w, wait, rfl, hsleeps, hpaced⟩
  | script :: scripts, w, since, wait, hsleeps, hpaced => by
    unfold playAll
    rcases hsleeps.play_cases script with ⟨t, hnext, hplay⟩ | ⟨wait₁, view, w₁, hnext, hplay, hw₁⟩
    · rcases hpaced.nextSleep hrange script.outcome with ⟨htrap, hlong⟩ | ⟨wait₁, hnext', -⟩
      · cases htrap.symm.trans hnext
        exact Or.inl ⟨by rw [hplay]; rfl, hlong⟩
      · cases hnext'.symm.trans hnext
    · rcases hpaced.nextSleep hrange script.outcome with ⟨htrap, -⟩ | ⟨wait₁, hnext', hpaced₁⟩
      · cases htrap.symm.trans hnext
      · cases hnext'.symm.trans hnext
        rw [hplay, Guarded.ok_bind, List.map_cons, List.foldl_cons]
        dsimp only
        rcases playAll_cases hrange scripts hw₁ hpaced₁ with
          ⟨htrap, hlong⟩ | ⟨views, w', wait', hrest, hw', hpaced'⟩
        · exact Or.inl ⟨by rw [htrap]; rfl, hlong⟩
        · exact Or.inr ⟨_, w', wait', by rw [hrest]; rfl, hw', hpaced'⟩

/-- In a session with a worker whose shortest sleep is not above its longest one, each sleep is in
the range from the one to the other as long as no round has been without a victim, and again once a
round was not worth making or failed. The sleep after a round without a victim has its own length,
busy rounds keep it, and each successful round takes the shortest sleep off it, down to the
shortest: such a sleep is above the range as long as what has been taken off does not reach down to
the longest. A session goes on to its end unless a sleep is too long to be represented. -/
theorem sleeps_paced (p : Pacing) (hrange : p.minSleep ≤ p.maxSleep) (scripts : List RoundScript) :
    ((create p).start.2.enter.playAll scripts = .error .width ∧
      timeLimit ≤ p.minSleep + max p.maxSleep p.idleSleep) ∨
    ∃ views w wait, (create p).start.2.enter.playAll scripts = .ok (views, w) ∧
      w.stage = .asleep wait ∧
      p.Paced (Pacing.sinceIdle (scripts.map RoundScript.outcome)) wait ∧
      ∀ n, Pacing.sinceIdle (scripts.map RoundScript.outcome) = some (n + 1) →
        (p.maxSleep < wait ↔ p.maxSleep + (n + 1) * p.minSleep < p.idleSleep) := by
  have hsleeps : (create p).start.2.enter.Sleeps p p.minSleep := ⟨rfl, rfl, rfl⟩
  have hpaced : p.Paced none p.minSleep := ⟨fun _ => ⟨le_rfl, hrange⟩, nofun, nofun⟩
  rcases Sleeps.playAll_cases hrange scripts hsleeps hpaced with
    htrap | ⟨views, w, wait, hplay, hw, hpaced'⟩
  · exact Or.inl htrap
  · refine Or.inr ⟨views, w, wait, hplay, hw.stage, hpaced', fun n hn => ?_⟩
    unfold Pacing.sinceIdle at hn
    rw [hn] at hpaced'
    exact hpaced'.maxSleep_lt_iff hrange

/-- A worker that may sleep for 10 to 40 nanoseconds, or 100 after a round without a victim. -/
def shortPacing : Pacing := { minSleep := 10, maxSleep := 40, idleSleep := 100 }

/-- A round without a victim, and a successful one. -/
def fruitlessThenFreed : List RoundScript :=
  [⟨false, true, some (.error .unavailable)⟩, ⟨false, true, some (.ok 1)⟩]

/-- Behind a round without a victim and a successful one, `shortPacing` sleeps 90 nanoseconds. -/
theorem sleeps_paced_short : shortPacing.minSleep ≤ shortPacing.maxSleep ∧
    ∃ views w, (create shortPacing).start.2.enter.playAll fruitlessThenFreed = .ok (views, w) ∧
      w.stage = .asleep 90 := by
  have hrange : shortPacing.minSleep ≤ shortPacing.maxSleep := by decide
  rcases sleeps_paced shortPacing hrange fruitlessThenFreed with
    ⟨-, hlong⟩ | ⟨views, w, wait, hplay, hstage, hpaced, -⟩
  · exact absurd hlong (by decide)
  · have hwait : wait = 90 := hpaced.shortened 0 rfl
    exact ⟨hrange, views, w, hplay, by rw [hstage, hwait]⟩

/-- The sleep after a successful round may be longer than the longest one: as configured by default
it is 270 seconds right after a round without a victim, when the longest sleep has 60. -/
theorem sleeps_beyond_longest : ¬∀ (p : Pacing) (scripts : List RoundScript) (script : RoundScript)
    (views : List RoundView) (w : Worker) (wait sections : ℕ), p.minSleep ≤ p.maxSleep →
    (create p).start.2.enter.playAll (scripts ++ [script]) = .ok (views, w) →
    w.stage = .asleep wait → script.outcome = .freed sections →
    p.minSleep ≤ wait ∧ wait ≤ p.maxSleep := by
  intro hall
  obtain ⟨-, hle⟩ := hall {} [⟨false, true, some (.error .unavailable)⟩]
    ⟨false, true, some (.ok 1)⟩ _ _ 270_000_000_000 1 (by decide) rfl rfl rfl
  exact absurd hle (by decide)

end Worker

end Reclaim
