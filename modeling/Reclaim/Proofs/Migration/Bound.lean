import Reclaim.Proofs.Migration.Rounds

/-!
# How many checkpoints a run writes

A run writes a checkpoint when it turns to the foreground, and a last one at its end. To say that
there is no third one, whatever comes of the run, the filesystem is given permits:
`Backend.rationed` spends one on each checkpoint and does something else when none is left. An
operation that never looks at the permits does with them what it does without (`Act.Mirrors`), and
one that can write checkpoints does so if it has permits enough (`Act.Affords`). A run with two
permits is the run itself, whatever would happen without a permit (`Backend.rationed_run`).

`run_bounded` puts this together with the bound on passes.
-/

namespace Reclaim

variable {σ α β : Type}

namespace World

/-- The world with a number of permits. -/
def allow (w : World σ) (permits : ℕ) : World (σ × ℕ) :=
  ⟨w.area, w.collector, w.pages, (w.host, permits)⟩

/-- The world without its permits. -/
def bare (w : World (σ × ℕ)) : World σ := ⟨w.area, w.collector, w.pages, w.host.1⟩

end World

namespace Act

/-- An operation that does not see the permits. -/
def blind (m : Act σ α) : Act (σ × ℕ) α := fun w => do
  let (x, w') ← m w.bare
  return (x, w'.allow w.host.2)

/-- One operation does what another does, and leaves the permits as they are. -/
def Mirrors (m' : Act (σ × ℕ) α) (m : Act σ α) : Prop :=
  ∀ w permits, m' (w.allow permits) = (m w).map fun x => (x.1, x.2.allow permits)

section Mirrors

/-- Operations in a row mirror what their parts mirror. -/
theorem Mirrors.bind {m' : Act (σ × ℕ) α} {m : Act σ α} {f' : α → Act (σ × ℕ) β}
    {f : α → Act σ β} (hm : Mirrors m' m) (hf : ∀ x, Mirrors (f' x) (f x)) :
    Mirrors (m' >>= f') (m >>= f) := by
  intro w permits
  show (m' (w.allow permits) >>= fun x => f' x.1 x.2) = (m w >>= fun x => f x.1 x.2).map _
  rw [hm w permits]
  -- The second parts go on in the same world, with the same permits beside it.
  cases m w with
  | error t => rfl
  | ok x => exact hf x.1 x.2 permits

/-- An operation that does not see the permits mirrors the operation itself. -/
theorem mirrors_blind (m : Act σ α) : Mirrors m.blind m := by
  intro w permits
  show (m w >>= fun x => _) = (m w).map _
  cases m w <;> rfl

/-- Reading the area looks at no permit. -/
theorem mirrors_readArea (f : Area → α) : Mirrors (readArea f) (readArea f : Act σ α) :=
  fun _ _ => rfl

/-- An operation of the area looks at no permit. -/
theorem mirrors_onArea (f : Area → Guarded (α × Area)) :
    Mirrors (onArea f) (onArea f : Act σ α) := by
  intro w permits
  show (f w.area >>= fun x => _) = (f w.area >>= fun x => _).map _
  cases f w.area <;> rfl

/-- Claiming a section looks at no permit. -/
theorem mirrors_claim (sec : Option ℕ) : Mirrors (claim sec) (claim sec : Act σ Unit) :=
  fun _ _ => rfl

/-- Moving the phase looks at no permit. -/
theorem mirrors_progress (f : Progress → Bool × Progress) :
    Mirrors (progress f) (progress f : Act σ Bool) := fun _ _ => rfl

/-- Operations that are in step, whatever the permits, mirror each other. -/
theorem mirrors_of_inStep {m' : Act (σ × ℕ) α} {m : Act σ α}
    (h : ∀ permits, InStep (fun w' w => w' = w.allow permits) m' m) : Mirrors m' m := by
  intro w permits
  have hrun := @h permits (w.allow permits) w rfl
  generalize m' (w.allow permits) = r' at hrun ⊢
  generalize m w = r at hrun ⊢
  cases hrun with
  | stop t => rfl
  | give after =>
    subst after
    rfl

/-- An operation that mirrors another is in step with it, whatever the permits. -/
theorem Mirrors.inStep {m' : Act (σ × ℕ) α} {m : Act σ α} (h : Mirrors m' m) (permits : ℕ) :
    InStep (fun w' w => w' = w.allow permits) m' m := by
  rintro _ w rfl
  rw [h w permits]
  cases m w with
  | error t => exact .stop t
  | ok x => exact .give rfl

/-- A world with permits is coupled to the one without. -/
theorem coupling_allow (permits : ℕ) :
    Coupling fun (w' : World (σ × ℕ)) (w : World σ) => w' = w.allow permits where
  area hw := by rw [hw]; rfl
  pages hw := by rw [hw]; rfl
  count f hw := by rw [hw]; rfl
  mark pages hw := by rw [hw]; rfl

end Mirrors

/-- With `p` permits or more, one operation does what another does. It has as many left as it had
over `p`, and `q x` more if it gives `x`. -/
structure Affords (p : ℕ) (m' : Act (σ × ℕ) α) (m : Act σ α) (q : α → ℕ) : Prop where
  /-- It stops where the other stops. -/
  error : ∀ ⦃w permits t⦄, p ≤ permits → m w = .error t → m' (w.allow permits) = .error t
  /-- It gives what the other gives. -/
  ok : ∀ ⦃w permits x w'⦄, p ≤ permits → m w = .ok (x, w') →
    ∃ left, q x + permits ≤ left + p ∧ m' (w.allow permits) = .ok (x, w'.allow left)

section Affords

variable {p : ℕ}

/-- What leaves the permits alone can be afforded with any number of them. -/
theorem Mirrors.affords {m' : Act (σ × ℕ) α} {m : Act σ α} (h : Mirrors m' m) (p : ℕ) :
    Affords p m' m fun _ => p := by
  constructor
  · intro w permits t _ hm
    rw [h w permits, hm]
    rfl
  · intro w permits x w' _ hm
    refine ⟨permits, Nat.le_of_eq (Nat.add_comm _ _), ?_⟩
    rw [h w permits, hm]
    rfl

/-- A value is returned with no more permits than there were. -/
theorem affords_pure {q : α → ℕ} {x : α} (h : q x ≤ p) :
    Affords p (pure x) (pure x : Act σ α) q := by
  constructor
  · intro w permits t _ hm
    cases hm
  · intro w permits y w' _ hm
    cases hm
    exact ⟨permits, by omega, rfl⟩

/-- Stopping takes no permit. -/
theorem affords_stop (t : Trap) (q : α → ℕ) : Affords p (stop t) (stop t : Act σ α) q := by
  constructor
  · intro w permits t' _ hm
    cases hm
    rfl
  · intro w permits x w' _ hm
    cases hm

/-- What two operations afford one after the other. -/
theorem Affords.bind {q : α → ℕ} {s : β → ℕ} {m' : Act (σ × ℕ) α} {m : Act σ α}
    {f' : α → Act (σ × ℕ) β} {f : α → Act σ β} (hm : Affords p m' m q)
    (hf : ∀ x, Affords (q x) (f' x) (f x) s) : Affords p (m' >>= f') (m >>= f) s := by
  constructor
  · intro w permits t hp h
    cases hw : m w with
    | error t' =>
      rw [bind_of_error hw f] at h
      cases h
      exact bind_of_error (hm.error hp hw) f'
    | ok p =>
      obtain ⟨x, w₁⟩ := p
      obtain ⟨left, hleft, hrun⟩ := hm.ok hp hw
      have hq : q x ≤ left := by omega
      rw [bind_of_ok hw f] at h
      rw [bind_of_ok hrun f']
      exact (hf x).error hq h
  · intro w permits y w' hp h
    obtain ⟨x, w₁, hx, hy⟩ := bind_eq_ok.mp h
    obtain ⟨left, hleft, hrun⟩ := hm.ok hp hx
    have hq : q x ≤ left := by omega
    obtain ⟨left', hleft', hrun'⟩ := (hf x).ok hq hy
    exact ⟨left', by omega, bind_eq_ok.mpr ⟨x, _, hrun, hrun'⟩⟩

end Affords

end Act

namespace Backend

open Act

/-- A filesystem that spends a permit on each checkpoint, and does something else when it has
none. -/
def rationed (b : Backend σ) (refuse : Act σ (Outcome Unit)) : Backend (σ × ℕ) where
  summary seg := (b.summary seg).blind
  nodeInRange nid := (b.nodeInRange nid).blind
  nodePage nid := (b.nodePage nid).blind
  nodeInfo nid := (b.nodeInfo nid).blind
  placeNode page := (b.placeNode page).blind
  inode ino := (b.inode ino).blind
  isLinked inode := (b.isLinked inode).blind
  dataPage inode index := (b.dataPage inode index).blind
  placeData inode page := (b.placeData inode page).blind
  punch inode start stop evict := (b.punch inode start stop evict).blind
  writeback batch := (b.writeback batch).blind
  checkpointFailed := b.checkpointFailed.blind
  writeCheckpoint := fun w =>
    if w.host.2 = 0 then refuse.blind w else b.writeCheckpoint.blind (w.bare.allow (w.host.2 - 1))

variable {b : Backend σ} {refuse : Act σ (Outcome Unit)}

/-! ## Passes look at no permit -/

/-- The operations that passes call look at no permit. -/
theorem inStep_rationed (permits : ℕ) :
    InStep (fun w' w => w' = w.allow permits) (b.rationed refuse) b where
  summary _ := (mirrors_blind _).inStep permits
  nodeInRange _ := (mirrors_blind _).inStep permits
  nodePage _ := (mirrors_blind _).inStep permits
  nodeInfo _ := (mirrors_blind _).inStep permits
  placeNode _ := (mirrors_blind _).inStep permits
  inode _ := (mirrors_blind _).inStep permits
  isLinked _ := (mirrors_blind _).inStep permits
  dataPage _ _ := (mirrors_blind _).inStep permits
  placeData _ _ := (mirrors_blind _).inStep permits
  punch _ _ _ _ := (mirrors_blind _).inStep permits
  writeback _ := (mirrors_blind _).inStep permits

/-- Collecting a section looks at no permit. -/
theorem mirrors_collectSection (trigger : Trigger) (start : ℕ) :
    Mirrors ((b.rationed refuse).collectSection start trigger)
      (b.collectSection start trigger) :=
  mirrors_of_inStep fun permits =>
    inStep_collectSection (coupling_allow permits) (inStep_rationed permits) start trigger

/-! ## What a run can afford -/

/-- The checkpoints that a run can still write: one to turn to the foreground, and a last one. -/
def permits : Trigger → ℕ
  | .background => 2
  | .foreground => 1

variable {needed p : ℕ}

/-- Writing a checkpoint takes a permit. -/
theorem affords_writeCheckpoint :
    Affords (p + 1) (b.rationed refuse).writeCheckpoint b.writeCheckpoint fun _ => p := by
  -- There is a permit, so the filesystem writes the checkpoint with one less.
  have hspend : ∀ (w : World σ) {permits : ℕ}, p + 1 ≤ permits →
      (b.rationed refuse).writeCheckpoint (w.allow permits) =
        (b.writeCheckpoint w).map fun x => (x.1, x.2.allow (permits - 1)) := by
    intro w permits hp
    have hsome : permits ≠ 0 := by omega
    show (if permits = 0 then _ else b.writeCheckpoint.blind (w.allow (permits - 1))) = _
    rw [if_neg hsome]
    exact mirrors_blind b.writeCheckpoint w (permits - 1)
  constructor
  · intro w permits t hp h
    rw [hspend w hp, h]
    rfl
  · intro w permits x w' hp h
    refine ⟨permits - 1, by omega, ?_⟩
    rw [hspend w hp, h]
    rfl

/-- A checkpoint of a run takes a permit. -/
theorem affords_checkpoint :
    Affords (p + 1) (b.rationed refuse).checkpoint b.checkpoint fun _ => p := by
  unfold checkpoint
  refine affords_writeCheckpoint.bind fun written => ?_
  cases written with
  | error status => exact affords_pure le_rfl
  | ok _ => exact ((mirrors_onArea _).affords p).bind fun _ => affords_pure le_rfl

/-- Turning to the foreground takes the permit that only a run in the background still needs. -/
theorem affords_escalate (r : RunReport) :
    Affords (permits r.trigger) ((b.rationed refuse).escalate needed r) (b.escalate needed r)
      fun x => permits x.1.trigger := by
  unfold escalate
  refine ((mirrors_readArea _).affords _).bind fun short => ?_
  split_ifs with hturn
  · -- The run is in the background: it has two permits, and keeps one for its last checkpoint.
    rw [hturn.1]
    refine ((mirrors_progress _).affords 2).bind fun _ =>
      (affords_checkpoint (p := 1)).bind fun checked => ?_
    cases checked with
    | error status => exact affords_pure le_rfl
    | ok _ => exact ((mirrors_progress _).affords 1).bind fun _ => affords_pure le_rfl
  · exact affords_pure le_rfl

/-- A pass takes no permit. -/
theorem affords_pass (r : RunReport) (seg : ℕ) :
    Affords (permits r.trigger) ((b.rationed refuse).pass r seg) (b.pass r seg)
      fun x => permits x.1.trigger := by
  obtain ⟨trigger, freed, made⟩ := r
  unfold pass
  refine ((mirrors_progress _).affords _).bind fun _ =>
    ((mirrors_collectSection _ _).affords _).bind fun result =>
      ((mirrors_progress _).affords _).bind fun _ => ?_
  cases trigger with
  | foreground =>
    cases result with
    | error status => exact affords_pure le_rfl
    | ok _ =>
      refine ((mirrors_claim _).affords _).bind fun _ => ?_
      split_ifs
      · exact affords_pure le_rfl
      · exact affords_stop _ _
  | background =>
    cases result with
    | error status => cases status <;> exact affords_pure le_rfl
    | ok _ => exact affords_pure le_rfl

/-- A round takes as many permits as turning to the foreground. -/
theorem affords_round (r : RunReport) :
    Affords (permits r.trigger) ((b.rationed refuse).round needed r) (b.round needed r)
      fun x => permits x.1.trigger := by
  unfold round
  refine (affords_escalate r).bind fun x => ?_
  obtain ⟨r₁, escalated⟩ := x
  cases escalated with
  | error status => exact affords_pure le_rfl
  | ok _ =>
    refine ((mirrors_onArea _).affords _).bind fun found => ?_
    cases found with
    | error status => cases status <;> exact affords_pure le_rfl
    | ok seg =>
      refine (affords_pass r₁ seg).bind fun x => ?_
      obtain ⟨r₂, passed⟩ := x
      cases passed with
      | error status => exact affords_pure le_rfl
      | ok _ =>
        refine ((mirrors_readArea _).affords _).bind fun short => ?_
        split_ifs <;> exact affords_pure le_rfl

/-- The passes of a run leave the permit for the last checkpoint. -/
theorem affords_passes (bound : ℕ) (r : RunReport) :
    Affords (permits r.trigger) ((b.rationed refuse).passes needed bound r)
      (b.passes needed bound r) fun x => permits x.1.trigger := by
  induction bound generalizing r with
  | zero => exact affords_stop _ _
  | succ bound ih =>
    rw [passes_succ, passes_succ]
    refine (affords_round r).bind fun x => ?_
    obtain ⟨r₁, ended⟩ := x
    cases ended with
    | some result => exact affords_pure le_rfl
    | none => exact ih r₁

/-- Only a run in the foreground writes a last checkpoint. -/
theorem affords_finish (r : RunReport) :
    Affords (permits r.trigger) ((b.rationed refuse).finish needed r) (b.finish needed r)
      fun _ => 0 := by
  obtain ⟨trigger, freed, made⟩ := r
  unfold finish
  cases trigger with
  | foreground =>
    refine ((mirrors_readArea _).affords 1).bind fun short => ?_
    split_ifs
    · exact affords_pure (Nat.zero_le 1)
    · refine ((mirrors_progress _).affords 1).bind fun _ =>
        (affords_checkpoint (p := 0)).bind fun checked => ?_
      cases checked <;> exact affords_pure le_rfl
  | background =>
    dsimp only
    split_ifs <;> exact affords_pure (Nat.zero_le 2)

/-- The body of a run takes two permits. -/
theorem affords_runBody :
    Affords 2 ((b.rationed refuse).runBody needed) (b.runBody needed) fun _ => 0 := by
  unfold runBody
  refine ((mirrors_blind _).affords 2).bind fun failed => ?_
  split_ifs
  · exact affords_pure (Nat.zero_le 2)
  · refine ((mirrors_readArea _).affords 2).bind fun bound =>
      (affords_passes bound .initial).bind fun x => ?_
    obtain ⟨r, passed⟩ := x
    cases passed with
    | error status => exact affords_pure (Nat.zero_le _)
    | ok _ => exact (affords_finish r).bind fun _ => affords_pure le_rfl

/-- A run takes two permits. -/
theorem affords_run : Affords 2 ((b.rationed refuse).run needed) (b.run needed) fun _ => 0 := by
  unfold run
  refine ((mirrors_progress _).affords 2).bind fun begun => ?_
  split_ifs
  · exact affords_runBody.bind fun _ => ((mirrors_claim _).affords 0).bind fun _ =>
      ((mirrors_progress _).affords 0).bind fun _ => affords_pure le_rfl
  · exact affords_pure (Nat.zero_le 2)

/-- A run with two permits is the run itself, whatever would happen without a permit. -/
theorem rationed_run (b : Backend σ) (refuse : Act σ (Outcome Unit)) (needed : ℕ) (w : World σ) :
    ((b.rationed refuse).run needed (w.allow 2)).map (fun x => (x.1, x.2.bare)) =
      b.run needed w := by
  have hrun : Affords 2 ((b.rationed refuse).run needed) (b.run needed) fun _ => 0 := affords_run
  cases hb : b.run needed w with
  | error t =>
    rw [hrun.error le_rfl hb]
    rfl
  | ok x =>
    obtain ⟨left, -, h⟩ := hrun.ok le_rfl hb
    rw [h]
    rfl

/-! ## The main result -/

/-- The passes of a run are in order and within bounds, however it ends. -/
theorem ordered_of_run (hb : b.WorksOnly) {w w' : World σ} {r : RunReport} {result : Outcome ℕ}
    (hroom : w.area.geometry.reserved + w.area.sectionsFor needed < 2 ^ 32 - 1)
    (h : b.run needed w = .ok ((r, result), w')) :
    ∃ fore ≤ w.area.geometry.reserved + w.area.sectionsFor needed + 1, r.Ordered fore := by
  have hnone : ∃ fore ≤ w.area.geometry.reserved + w.area.sectionsFor needed + 1,
      RunReport.initial.Ordered fore := ⟨0, Nat.zero_le _, RunReport.ordered_initial⟩
  unfold run at h
  obtain ⟨begun, w₁, hbegin, h₁⟩ := Act.bind_eq_ok.mp h
  obtain rfl := Act.progress_begin hbegin
  cases begun with
  | false =>
    cases h₁
    exact hnone
  | true =>
    obtain ⟨⟨report, ended⟩, w₂, hbody, h₂⟩ := Act.bind_eq_ok.mp h₁
    cases h₂
    unfold runBody at hbody
    obtain ⟨failed, w₃, hfailed, h₃⟩ := Act.bind_eq_ok.mp hbody
    have hgeometry := ((hb.works _).checkpointFailed .refl hfailed).framed.geometry
    cases failed with
    | true =>
      cases h₃
      exact hnone
    | false =>
      obtain ⟨bound, w₄, hbound, h₄⟩ := Act.bind_eq_ok.mp h₃
      cases hbound
      obtain ⟨⟨report, passed⟩, w₅, hpasses, h₅⟩ := Act.bind_eq_ok.mp h₄
      have hpaced := Paced.initial needed w₃
      rw [Area.sectionsFor_congr hgeometry, hgeometry] at hpaced
      have horder := hpaced.ordered_of_passes hb hroom hpasses
      cases passed with
      | error status =>
        cases h₅
        exact horder
      | ok _ =>
        obtain ⟨result, w₆, hfinish, h₆⟩ := Act.bind_eq_ok.mp h₅
        cases h₆
        exact horder

/-- A run ends. Let the reserve and the blocks asked for take `target` sections, fewer than 32 bits
can count. The loop of the run stops within `target + 2` rounds: with a bound of that size or more
it does the same, whatever it would do when the bound is used up. When the run has ended, well or
not, at most one pass was made in the background, before the others, and at most `target + 1` in the
foreground. The run writes at most two checkpoints: with permits for two it does the same, whatever
a third one would do. The filesystem may answer what it likes, and may change the area by
allocations, invalidations and checkpoints. -/
theorem run_bounded (hb : b.WorksOnly) {w : World σ}
    (hroom : w.area.geometry.reserved + w.area.sectionsFor needed < 2 ^ 32 - 1) :
    let target := w.area.geometry.reserved + w.area.sectionsFor needed
    (∀ w₁, b.checkpointFailed w.begun = .ok (false, w₁) → ∀ exit bound, target + 2 ≤ bound →
        b.loop exit needed bound .initial w₁ =
          b.passes needed (w₁.area.passBound needed) .initial w₁) ∧
      (∀ r result w', b.run needed w = .ok ((r, result), w') →
        ∃ back fore, r.passes.map Prod.fst =
            List.replicate back .background ++ List.replicate fore .foreground ∧
          back ≤ 1 ∧ fore ≤ target + 1) ∧
      ∀ refuse, ((b.rationed refuse).run needed (w.allow 2)).map (fun x => (x.1, x.2.bare)) =
        b.run needed w := by
  intro target
  refine ⟨?_, ?_, fun refuse => rationed_run b refuse needed w⟩
  · intro w₁ hfailed exit bound hbound
    have hgeometry : w₁.area.geometry = w.area.geometry :=
      ((hb.works _).checkpointFailed .refl hfailed).framed.geometry
    have hpaced : Paced target needed .initial w₁ := by
      have hinitial := Paced.initial needed w₁
      rwa [Area.sectionsFor_congr hgeometry, hgeometry] at hinitial
    have hleft : RunReport.initial.roundsLeft target ≤ target + 2 := Nat.le_refl _
    have hbound' : target + 2 ≤ w₁.area.passBound needed := by
      unfold Area.passBound
      rw [Area.sectionsFor_congr hgeometry, hgeometry]
      exact Nat.le_succ _
    rw [passes_eq_loop]
    exact hpaced.loop_eq hb hroom _ _ (hleft.trans hbound) (hleft.trans hbound')
  · intro r result w' h
    obtain ⟨fore, hfore, back, hback, hpasses⟩ := ordered_of_run hb hroom h
    exact ⟨back, fore, hpasses, hback, hfore⟩

/-- A run with one section in reserve that moves a node makes one pass of the two that it might, and
with permits for two checkpoints it does the same. -/
theorem run_bounded_moved :
    ∃ (w w' : World (Volume Empty Unit)) (r : RunReport), w.area.Reachable ∧
      (Volume.backend Empty.elim).run 0 w = .ok ((r, .ok 1), w') ∧ r.passes = [(.foreground, 4)] ∧
      (∃ back fore, r.passes.map Prod.fst =
          List.replicate back .background ++ List.replicate fore .foreground ∧
        back ≤ 1 ∧ fore ≤ 2) ∧
      ∀ refuse, (((Volume.backend Empty.elim).rationed refuse).run 0 (w.allow 2)).map
        (fun x => (x.1, x.2.bare)) = .ok ((r, .ok 1), w') := by
  obtain ⟨a₀, events, a, hcreate, hrun, h⟩ := Area.Run.of_reaches crowdedLayout crowding
    (fun _ a => a.geometry.reserved + a.sectionsFor 0 = 1 &&
      ((Volume.backend Empty.elim).run 0 (oneNode a [])).toOption.map
        (fun x => (x.1.1.passes, x.1.2.toOption)) = some ([(.foreground, 4)], some 1))
    (by decide +kernel)
  simp only [Bool.and_eq_true, decide_eq_true_eq] at h
  obtain ⟨htarget, hend⟩ := h
  cases hresult : (Volume.backend Empty.elim).run 0 (oneNode a []) with
  | error t =>
    rw [hresult] at hend
    cases hend
  | ok x =>
    obtain ⟨⟨r, result⟩, w'⟩ := x
    rw [hresult] at hend
    obtain ⟨hpasses, hcount⟩ := Prod.mk.inj (Option.some.inj hend)
    have hpasses : r.passes = [(.foreground, 4)] := hpasses
    have hcount : result.toOption = some 1 := hcount
    cases result with
    | error status => cases hcount
    | ok n =>
      obtain rfl : n = 1 := Option.some.inj hcount
      have hroom : a.geometry.reserved + a.sectionsFor 0 < 2 ^ 32 - 1 := by omega
      have hwrites : (Volume.backend Empty.elim : Backend (Volume Empty Unit)).WritesOnly :=
        Volume.backend_writesOnly nofun
      obtain ⟨-, horder, hpermits⟩ := run_bounded hwrites.worksOnly (w := oneNode a []) hroom
      have horder := horder r _ w' hresult
      rw [show (oneNode a []).area = a from rfl, htarget] at horder
      rw [hresult] at hpermits
      exact ⟨oneNode a [], w', r, ⟨_, _, _, hcreate, hrun⟩, hresult, hpasses, horder, hpermits⟩

end Backend

end Reclaim
