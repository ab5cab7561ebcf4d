import Reclaim.Proofs.Migration.Run
import Reclaim.Proofs.Victim.Answer

/-!
# How many passes a run can make

The loop of a run makes a pass in every round (`Backend.round`) and goes on while free sections are
short. A round in the background is followed by rounds in the foreground only, and each of these
counts a section as freed; once more are counted than the reserve and the blocks asked for take,
free sections cannot be short. `RunReport.roundsLeft` counts down accordingly (`Paced.round`), so
the bound that the loop is given is never used up: with any other exit in its place the loop does
the same (`Paced.loop_eq`).

All this needs of the filesystem is that it leaves the geometry alone, as it does if it changes the
area by allocations, invalidations and checkpoints only (`Backend.WorksOnly`).
-/

namespace Reclaim

variable {σ : Type}

/-- Whether the operations of a filesystem change the area by allocations, invalidations and
checkpoints only, whatever they answer and whatever else they do. -/
structure Backend.WorksOnly (b : Backend σ) : Prop where
  /-- The operations but the writing of checkpoints. -/
  works : ∀ a : Area, b.Preserves fun w => a.Worked w.area
  /-- The writing of checkpoints. -/
  writeCheckpoint : ∀ a : Area, Act.Keeps (fun w => a.Worked w.area) b.writeCheckpoint

/-- Allocations and invalidations go on from allocations, invalidations and checkpoints. -/
theorem Area.Worked.written {a a₁ a' : Area} (h : a.Worked a₁) (h' : a₁.Written a') :
    a.Worked a' := by
  induction h' with
  | refl => exact h
  | allocate _ last ih => exact ih.allocate last
  | invalidate _ last ih => exact ih.invalidate last

/-- An operation that only allocates and drops blocks may follow checkpoints as well. -/
theorem Act.keeps_worked {α : Type} {m : Act σ α}
    (hm : ∀ a : Area, Act.Keeps (fun w => a.Written w.area) m) (a : Area) :
    Act.Keeps (fun w => a.Worked w.area) m :=
  fun w _ _ hw h => hw.written (hm w.area .refl h)

/-- A filesystem that only writes only works. -/
theorem Backend.WritesOnly.worksOnly {b : Backend σ} (hb : b.WritesOnly) : b.WorksOnly where
  works a := by
    constructor
    · exact fun seg => Act.keeps_worked (fun a => (hb.writes a).summary seg) a
    · exact fun nid => Act.keeps_worked (fun a => (hb.writes a).nodeInRange nid) a
    · exact fun nid => Act.keeps_worked (fun a => (hb.writes a).nodePage nid) a
    · exact fun nid => Act.keeps_worked (fun a => (hb.writes a).nodeInfo nid) a
    · exact fun page => Act.keeps_worked (fun a => (hb.writes a).placeNode page) a
    · exact fun ino => Act.keeps_worked (fun a => (hb.writes a).inode ino) a
    · exact fun inode => Act.keeps_worked (fun a => (hb.writes a).isLinked inode) a
    · exact fun inode i => Act.keeps_worked (fun a => (hb.writes a).dataPage inode i) a
    · exact fun inode page => Act.keeps_worked (fun a => (hb.writes a).placeData inode page) a
    · exact fun inode i j evict => Act.keeps_worked (fun a => (hb.writes a).punch inode i j evict) a
    · exact fun batch => Act.keeps_worked (fun a => (hb.writes a).writeback batch) a
    · exact Act.keeps_worked (fun a => (hb.writes a).checkpointFailed) a
  writeCheckpoint a := by
    intro w r w' hw h
    rw [hb.writeCheckpoint h]
    exact hw

namespace Area

variable {a a' : Area}

/-- The sections that a number of blocks fills depend on the geometry alone. -/
theorem sectionsFor_congr (h : a'.geometry = a.geometry) (blocks : ℕ) :
    a'.sectionsFor blocks = a.sectionsFor blocks := by
  unfold sectionsFor
  rw [h]

/-- Free sections are not short when more are about to be free than the reserve and the blocks
take. -/
theorem le_of_isShort {freed needed : ℕ}
    (hroom : a.geometry.reserved + a.sectionsFor needed < 2 ^ 32 - 1)
    (h : a.isShort freed needed = true) :
    freed ≤ a.geometry.reserved + a.sectionsFor needed := by
  unfold isShort saturate at h
  have hle := of_decide_eq_true h
  -- The bound is below what 32 bits hold, so it is not cut down.
  have htarget : min (a.geometry.reserved + a.sectionsFor needed) 0xFFFF_FFFF =
      a.geometry.reserved + a.sectionsFor needed := by omega
  rw [htarget] at hle
  omega

end Area

namespace RunReport

variable {r r' : RunReport} {fore seg : ℕ}

/-- The passes of a run are at most one in the background and then some in the foreground. -/
def Ordered (r : RunReport) (fore : ℕ) : Prop :=
  ∃ back ≤ 1, r.passes.map Prod.fst =
    List.replicate back .background ++ List.replicate fore .foreground

/-- A run that has not begun has made no pass. -/
theorem ordered_initial : initial.Ordered 0 := ⟨0, Nat.zero_le 1, rfl⟩

/-- A pass in the background comes first. -/
theorem ordered_background (h : r.passes = [(.background, seg)]) : r.Ordered 0 := by
  refine ⟨1, le_rfl, ?_⟩
  rw [h]
  rfl

/-- Passes in the foreground come last. -/
theorem Ordered.foreground (h : r.Ordered fore)
    (h' : r'.passes = r.passes ++ [(.foreground, seg)]) : r'.Ordered (fore + 1) := by
  obtain ⟨back, hback, hpasses⟩ := h
  refine ⟨back, hback, ?_⟩
  rw [h', List.map_append, hpasses, List.replicate_succ', List.append_assoc]
  rfl

/-- The rounds that a run can still take to free `target` sections and one more. -/
def roundsLeft (r : RunReport) (target : ℕ) : ℕ :=
  target + 1 - r.freed + if r.passes = [] then 1 else 0

end RunReport

/-- A run at the head of its loop: each foreground pass so far is counted, no more than the sections
that the run works towards, and after a background pass free sections are short. -/
structure Paced (target needed : ℕ) (r : RunReport) (w : World σ) : Prop where
  /-- The sections that the run works towards. -/
  target_eq : w.area.geometry.reserved + w.area.sectionsFor needed = target
  /-- Each foreground pass is counted. -/
  order : r.Ordered r.freed
  /-- No more are counted than the run works towards. -/
  freed_le : r.freed ≤ target
  /-- In the background nothing is counted. -/
  idle : r.trigger = .background → r.freed = 0
  /-- A run does not stay in the background. -/
  turns : r.trigger = .background → r.passes ≠ [] → w.area.isShort 0 needed = true

namespace Backend

variable {b : Backend σ} {w w' : World σ} {r r' : RunReport} {needed : ℕ}

/-! ## Rounds -/

/-- One round of the loop of a run, with its outcome unless the loop goes on. -/
def round (b : Backend σ) (needed : ℕ) (r : RunReport) :
    Act σ (RunReport × Option (Outcome Unit)) := do
  match ← b.escalate needed r with
  | (r, .error status) => return (r, some (.error status))
  | (r, .ok ()) =>
    match ← Act.onArea (·.findVictim r.trigger none .wholeSection) with
    | .error .unavailable => return (r, some (.ok ()))
    | .error status => return (r, some (.error status))
    | .ok seg =>
      match ← b.pass r seg with
      | (r, .error status) => return (r, some (.error status))
      | (r, .ok ()) =>
        if ← Act.readArea (·.isShort r.freed needed) then
          return (r, none)
        else
          return (r, some (.ok ()))

/-- What follows a round: the run goes on, or keeps the outcome. -/
def proceed (next : RunReport → Act σ (RunReport × Outcome Unit)) :
    RunReport × Option (Outcome Unit) → Act σ (RunReport × Outcome Unit)
  | (r, none) => next r
  | (r, some result) => return (r, result)

/-- Makes rounds until one has an outcome, and leaves by the exit when the bound is used up. -/
def loop (b : Backend σ) (exit : RunReport → Act σ (RunReport × Outcome Unit)) (needed : ℕ) :
    ℕ → RunReport → Act σ (RunReport × Outcome Unit)
  | 0, r => exit r
  | bound + 1, r => b.round needed r >>= proceed (b.loop exit needed bound)

/-- The passes of a run are rounds. -/
theorem passes_succ (b : Backend σ) (needed bound : ℕ) (r : RunReport) :
    b.passes needed (bound + 1) r = b.round needed r >>= proceed (b.passes needed bound) := by
  unfold round
  rw [passes, bind_assoc]
  refine congrArg _ (funext fun x => ?_)
  obtain ⟨r₁, escalated⟩ := x
  cases escalated with
  | error status => rfl
  | ok _ =>
    dsimp only
    rw [bind_assoc]
    refine congrArg _ (funext fun found => ?_)
    cases found with
    | error status => cases status <;> rfl
    | ok seg =>
      dsimp only
      rw [bind_assoc]
      refine congrArg _ (funext fun x => ?_)
      obtain ⟨r₂, passed⟩ := x
      cases passed with
      | error status => rfl
      | ok _ =>
        dsimp only
        rw [bind_assoc]
        refine congrArg _ (funext fun short => ?_)
        cases short <;> rfl

/-- The passes of a run are its loop, with running away for an exit. -/
theorem passes_eq_loop (b : Backend σ) (needed bound : ℕ) (r : RunReport) :
    b.passes needed bound r = b.loop (fun _ => Act.stop .runaway) needed bound r := by
  induction bound generalizing r with
  | zero => rfl
  | succ bound ih =>
    have hpasses : b.passes needed bound = b.loop (fun _ => Act.stop .runaway) needed bound :=
      funext ih
    rw [passes_succ, loop, hpasses]

/-! ## What a round leaves alone, and what it counts -/

/-- A checkpoint of a run leaves the geometry alone. -/
theorem geometry_of_checkpoint (hb : b.WorksOnly) {result : Outcome Unit}
    (h : b.checkpoint w = .ok (result, w')) : w'.area.geometry = w.area.geometry := by
  unfold checkpoint at h
  obtain ⟨written, w₁, hwrite, h₁⟩ := Act.bind_eq_ok.mp h
  have hfirst := (hb.writeCheckpoint w.area .refl hwrite).framed.geometry
  cases written with
  | error status =>
    cases h₁
    exact hfirst
  | ok _ =>
    obtain ⟨n, w₂, hran, h₂⟩ := Act.bind_eq_ok.mp h₁
    obtain ⟨area, hcheckpoint, rfl⟩ := Act.onArea_eq_ok.mp hran
    cases h₂
    exact (Area.framed_of_checkpoint hcheckpoint).geometry.trans hfirst

/-- A run turns to the foreground, or goes on as it is; it stays in the background only if free
sections are not short. -/
theorem escalate_cases (hb : b.WorksOnly) {result : Outcome Unit}
    (h : b.escalate needed r w = .ok ((r', result), w')) :
    w'.area.geometry = w.area.geometry ∧ r' = { r with trigger := .foreground } ∨
      w' = w ∧ r' = r ∧ (r.trigger = .background → w.area.isShort r.freed needed = false) := by
  unfold escalate at h
  obtain ⟨short, w₁, hread, h₁⟩ := Act.bind_eq_ok.mp h
  cases hread
  split_ifs at h₁ with hturn
  · left
    obtain ⟨_, w₂, hphase, h₂⟩ := Act.bind_eq_ok.mp h₁
    obtain ⟨checked, w₃, hcheckpoint, h₃⟩ := Act.bind_eq_ok.mp h₂
    have hgeometry := geometry_of_checkpoint hb hcheckpoint
    rw [Act.progress_area hphase] at hgeometry
    cases checked with
    | error status =>
      cases h₃
      exact ⟨hgeometry, rfl⟩
    | ok _ =>
      obtain ⟨_, w₄, hphase', h₄⟩ := Act.bind_eq_ok.mp h₃
      cases h₄
      rw [Act.progress_area hphase']
      exact ⟨hgeometry, rfl⟩
  · right
    cases h₁
    refine ⟨rfl, rfl, fun htrigger => ?_⟩
    exact Bool.eq_false_of_not_eq_true fun hshort => hturn ⟨htrigger, hshort⟩

/-- What a pass over a section adds to the report of a run. -/
structure Passed (r : RunReport) (seg : ℕ) (result : Outcome Unit) (r' : RunReport) : Prop where
  /-- The run stays where it is. -/
  trigger : r'.trigger = r.trigger
  /-- The pass is noted. -/
  passes : r'.passes = r.passes ++ [(r.trigger, seg)]
  /-- A pass in the background is not counted. -/
  background : r.trigger = .background → r'.freed = r.freed
  /-- A pass in the foreground that ends well is counted. -/
  foreground : r.trigger = .foreground → result = .ok () → r'.freed = r.freed + 1

/-- What a pass adds to the report; it leaves the geometry alone. -/
theorem passed_of_pass (hb : b.WorksOnly) {seg : ℕ} {result : Outcome Unit}
    (h : b.pass r seg w = .ok ((r', result), w')) :
    Passed r seg result r' ∧ w'.area.geometry = w.area.geometry := by
  obtain ⟨trigger, freed, made⟩ := r
  unfold pass at h
  obtain ⟨_, w₁, hphase, h₁⟩ := Act.bind_eq_ok.mp h
  obtain ⟨collected, w₂, hcollect, h₂⟩ := Act.bind_eq_ok.mp h₁
  obtain ⟨_, w₃, hphase', h₃⟩ := Act.bind_eq_ok.mp h₂
  have hworked := (hb.works w₁.area).collectSection (Act.lasting_area _) _ _ .refl hcollect
  have hgeometry := hworked.framed.geometry
  rw [Act.progress_area hphase, ← Act.progress_area hphase'] at hgeometry
  cases trigger with
  | foreground =>
    cases collected with
    | error status =>
      cases h₃
      exact ⟨⟨rfl, rfl, nofun, nofun⟩, hgeometry⟩
    | ok _ =>
      obtain ⟨_, w₄, hclaim, h₄⟩ := Act.bind_eq_ok.mp h₃
      cases hclaim
      split_ifs at h₄
      · cases h₄
        exact ⟨⟨rfl, rfl, nofun, fun _ _ => rfl⟩, hgeometry⟩
      · cases h₄
  | background =>
    -- A background pass that has given way is no failure of the run.
    cases collected with
    | error status =>
      cases status <;> cases h₃ <;> exact ⟨⟨rfl, rfl, fun _ => rfl, nofun⟩, hgeometry⟩
    | ok _ =>
      cases h₃
      exact ⟨⟨rfl, rfl, fun _ => rfl, nofun⟩, hgeometry⟩

end Backend

/-! ## The loop -/

namespace Paced

variable {b : Backend σ} {w w' : World σ} {r r' : RunReport} {target needed : ℕ}

/-- The target of a run stays the same while the geometry does. -/
theorem target_of_geometry (hr : Paced target needed r w)
    (h : w'.area.geometry = w.area.geometry) :
    w'.area.geometry.reserved + w'.area.sectionsFor needed = target := by
  rw [Area.sectionsFor_congr h, h]
  exact hr.target_eq

/-- A run at the head of its loop has at least one round left. -/
theorem roundsLeft_pos (hr : Paced target needed r w) : 0 < r.roundsLeft target := by
  have hfreed := hr.freed_le
  unfold RunReport.roundsLeft
  omega

/-- A run that has turned to the foreground, or need not, is still at the head of its loop; if it is
in the background, it has made no pass. -/
theorem escalate (hr : Paced target needed r w) (hb : b.WorksOnly) {result : Outcome Unit}
    (h : b.escalate needed r w = .ok ((r', result), w')) :
    Paced target needed r' w' ∧ r'.roundsLeft target = r.roundsLeft target ∧
      (r'.trigger = .background → r'.passes = []) := by
  rcases Backend.escalate_cases hb h with ⟨hgeometry, rfl⟩ | ⟨rfl, rfl, hlong⟩
  · exact ⟨⟨hr.target_of_geometry hgeometry, hr.order, hr.freed_le, nofun, nofun⟩, rfl, nofun⟩
  · refine ⟨hr, rfl, fun htrigger => ?_⟩
    by_contra hmade
    -- After a pass in the background free sections are short, so the run would have turned.
    have hshort := hr.turns htrigger hmade
    have hlong := hlong htrigger
    rw [hr.idle htrigger, hshort] at hlong
    cases hlong

/-- A pass in the background is the first one. If free sections are short after it, then the run is
at the head of its loop again, with fewer rounds left. -/
theorem background_pass (hr : Paced target needed r w) (htrigger : r.trigger = .background)
    (hnew : r.passes = []) {seg : ℕ} {result : Outcome Unit}
    (h : Backend.Passed r seg result r') (hgeometry : w'.area.geometry = w.area.geometry) :
    r'.Ordered 0 ∧ (w'.area.isShort r'.freed needed = true →
      Paced target needed r' w' ∧ r'.roundsLeft target < r.roundsLeft target) := by
  have hpasses : r'.passes = [(.background, seg)] := by
    rw [h.passes, hnew, htrigger]
    rfl
  have horder := RunReport.ordered_background hpasses
  have hidle := hr.idle htrigger
  have hidle' : r'.freed = 0 := (h.background htrigger).trans hidle
  refine ⟨horder, fun hshort => ?_⟩
  rw [hidle'] at hshort
  constructor
  · refine ⟨hr.target_of_geometry hgeometry, ?_, ?_, fun _ => hidle', fun _ _ => hshort⟩
    · rw [hidle']
      exact horder
    · rw [hidle']
      exact Nat.zero_le _
  · unfold RunReport.roundsLeft
    rw [if_neg (by rw [hpasses]; nofun), if_pos hnew, hidle', hidle]
    exact Nat.lt_succ_self _

/-- A pass in the foreground comes last. If it ends well and free sections are still short, then the
run is at the head of its loop again, with fewer rounds left. -/
theorem foreground_pass (hr : Paced target needed r w) (htrigger : r.trigger = .foreground)
    (hroom : target < 2 ^ 32 - 1) {seg : ℕ} {result : Outcome Unit}
    (h : Backend.Passed r seg result r') (hgeometry : w'.area.geometry = w.area.geometry) :
    r'.Ordered (r.freed + 1) ∧ (result = .ok () → w'.area.isShort r'.freed needed = true →
      Paced target needed r' w' ∧ r'.roundsLeft target < r.roundsLeft target) := by
  have htarget := hr.target_of_geometry hgeometry
  have hpasses := h.passes
  have hstays := h.trigger
  rw [htrigger] at hpasses hstays
  have horder := hr.order.foreground hpasses
  refine ⟨horder, fun hresult hshort => ?_⟩
  have hcount := h.foreground htrigger hresult
  -- Free sections are still short, so no more have been counted than the run works towards.
  have hle : r'.freed ≤ target := by
    rw [← htarget] at hroom ⊢
    exact Area.le_of_isShort hroom hshort
  constructor
  · refine ⟨htarget, ?_, hle, ?_, ?_⟩
    · rw [hcount]
      exact horder
    · rw [hstays]
      nofun
    · rw [hstays]
      nofun
  · unfold RunReport.roundsLeft
    rw [if_neg (by rw [hpasses]; exact List.concat_ne_nil _ _), hcount]
    omega

/-- A pass keeps the passes in order and within bounds. If it ends well and free sections are still
short, then the run is at the head of its loop again, with fewer rounds left. -/
theorem pass (hr : Paced target needed r w) (hnew : r.trigger = .background → r.passes = [])
    (hroom : target < 2 ^ 32 - 1) {seg : ℕ} {result : Outcome Unit}
    (h : Backend.Passed r seg result r') (hgeometry : w'.area.geometry = w.area.geometry) :
    (∃ fore ≤ target + 1, r'.Ordered fore) ∧
      (result = .ok () → w'.area.isShort r'.freed needed = true →
        Paced target needed r' w' ∧ r'.roundsLeft target < r.roundsLeft target) := by
  cases htrigger : r.trigger with
  | background =>
    obtain ⟨horder, hnext⟩ := hr.background_pass htrigger (hnew htrigger) h hgeometry
    exact ⟨⟨0, Nat.zero_le _, horder⟩, fun _ => hnext⟩
  | foreground =>
    obtain ⟨horder, hnext⟩ := hr.foreground_pass htrigger hroom h hgeometry
    exact ⟨⟨r.freed + 1, Nat.succ_le_succ hr.freed_le, horder⟩, hnext⟩

/-- A round keeps the passes in order and within bounds. If the loop goes on, then the run is at its
head again, with fewer rounds left. -/
theorem round (hr : Paced target needed r w) (hb : b.WorksOnly) (hroom : target < 2 ^ 32 - 1)
    {ended : Option (Outcome Unit)} (h : b.round needed r w = .ok ((r', ended), w')) :
    (∃ fore ≤ target + 1, r'.Ordered fore) ∧
      (ended = none → Paced target needed r' w' ∧ r'.roundsLeft target < r.roundsLeft target) := by
  unfold Backend.round at h
  obtain ⟨⟨r₁, escalated⟩, w₁, hescalate, h₁⟩ := Act.bind_eq_ok.mp h
  obtain ⟨hr₁, hleft, hnew⟩ := hr.escalate hb hescalate
  have hbefore : ∃ fore ≤ target + 1, r₁.Ordered fore :=
    ⟨r₁.freed, Nat.le_succ_of_le hr₁.freed_le, hr₁.order⟩
  cases escalated with
  | error status =>
    cases h₁
    exact ⟨hbefore, nofun⟩
  | ok _ =>
    obtain ⟨found, w₂, hsearch, h₂⟩ := Act.bind_eq_ok.mp h₁
    obtain ⟨area, hfind, rfl⟩ := Act.onArea_eq_ok.mp hsearch
    have hgeometry₂ := (Area.settings_of_findVictim hfind).1
    cases found with
    | error status => cases status <;> cases h₂ <;> exact ⟨hbefore, nofun⟩
    | ok seg =>
      obtain ⟨⟨r₂, passed⟩, w₃, hpass, h₃⟩ := Act.bind_eq_ok.mp h₂
      obtain ⟨hpassed, hgeometry₃⟩ := Backend.passed_of_pass hb hpass
      obtain ⟨horder, hnext⟩ := hr₁.pass hnew hroom hpassed (hgeometry₃.trans hgeometry₂)
      cases passed with
      | error status =>
        cases h₃
        exact ⟨horder, nofun⟩
      | ok _ =>
        obtain ⟨short, w₄, hread, h₄⟩ := Act.bind_eq_ok.mp h₃
        cases hread
        split_ifs at h₄ with hshort
        · cases h₄
          rw [← hleft]
          exact ⟨horder, fun _ => hnext rfl hshort⟩
        · cases h₄
          exact ⟨horder, nofun⟩

/-- A loop whose bound is not below the rounds left does the same for every such bound and every
exit. -/
theorem loop_eq (hb : b.WorksOnly) (hroom : target < 2 ^ 32 - 1)
    (exit exit' : RunReport → Act σ (RunReport × Outcome Unit)) :
    ∀ {bound bound' : ℕ} {r : RunReport} {w : World σ}, Paced target needed r w →
      r.roundsLeft target ≤ bound → r.roundsLeft target ≤ bound' →
      b.loop exit needed bound r w = b.loop exit' needed bound' r w
  | 0, _, _, _, hr, h, _ => absurd (Nat.lt_of_lt_of_le hr.roundsLeft_pos h) (Nat.lt_irrefl 0)
  | _ + 1, 0, _, _, hr, _, h => absurd (Nat.lt_of_lt_of_le hr.roundsLeft_pos h) (Nat.lt_irrefl 0)
  | bound + 1, bound' + 1, r, w, hr, h, h' => by
    -- Both loops begin with the same round, and what follows it has one round less.
    show (b.round needed r w >>= fun x => _) = (b.round needed r w >>= fun x => _)
    cases hround : b.round needed r w with
    | error t => rfl
    | ok x =>
      obtain ⟨⟨r', ended⟩, w'⟩ := x
      cases ended with
      | some result => rfl
      | none =>
        obtain ⟨hr', hless⟩ := (hr.round hb hroom hround).2 rfl
        exact loop_eq hb hroom exit exit' hr' (by omega) (by omega)

/-- When the passes of a run have come to an end, they are in order and within bounds. -/
theorem ordered_of_passes (hb : b.WorksOnly) (hroom : target < 2 ^ 32 - 1) {bound : ℕ}
    {result : Outcome Unit} (hr : Paced target needed r w)
    (h : b.passes needed bound r w = .ok ((r', result), w')) :
    ∃ fore ≤ target + 1, r'.Ordered fore := by
  induction bound generalizing r w with
  | zero => cases h
  | succ bound ih =>
    rw [Backend.passes_succ] at h
    obtain ⟨⟨r₁, ended⟩, w₁, hround, h₁⟩ := Act.bind_eq_ok.mp h
    obtain ⟨horder, hnext⟩ := hr.round hb hroom hround
    cases ended with
    | some result =>
      cases h₁
      exact horder
    | none => exact ih (hnext rfl).1 h₁

/-- A run that has not begun is at the head of its loop. -/
theorem initial (needed : ℕ) (w : World σ) :
    Paced (w.area.geometry.reserved + w.area.sectionsFor needed) needed RunReport.initial w :=
  ⟨rfl, RunReport.ordered_initial, Nat.zero_le _, fun _ => rfl, fun _ h => absurd rfl h⟩

end Paced

end Reclaim
