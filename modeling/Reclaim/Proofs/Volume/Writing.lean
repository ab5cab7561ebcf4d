import Reclaim.Volume.Backend
import Reclaim.Proofs.Migration.Act

/-!
# What the operations of the volume keep

The operations of the volume change its own state and the pages, append blocks and release them, so
they keep every invariant of the world that these steps and the actions of interruptions keep
(`Steady`, `backend_preserves`), whichever calls its faults make fail. In particular the volume
changes the area by appending and releasing blocks only if the actions of interruptions leave it
alone (`backend_writesOnly`).
-/

namespace Reclaim.Volume

variable {ι ρ : Type} {I : World (Volume ι ρ) → Prop}

/-- Reading the volume keeps every invariant. -/
theorem keeps_read {α : Type} (f : Volume ι ρ → α) : Act.Keeps I (read f) := by
  intro w r w' hw h
  cases h
  exact hw

/-- Asking for the phase keeps every invariant. -/
theorem keeps_phase : Act.Keeps I phase := by
  intro w r w' hw h
  cases h
  exact hw

section

variable (hhost : ∀ w v, I w → I { w with host := v })

include hhost

/-- Changing the volume keeps what does not depend on it. -/
theorem keeps_change (f : Volume ι ρ → Volume ι ρ) : Act.Keeps I (change f) := by
  intro w r w' hw h
  cases h
  exact hhost w _ hw

/-- Recording a claim keeps what does not depend on the volume. -/
theorem keeps_claim (addr : Address) (kind : BlockKind) (sum : Summary) :
    Act.Keeps I (claim addr kind sum) := by
  intro w r w' hw h
  cases h
  exact hhost w _ hw

/-- Pointing a slot elsewhere keeps what does not depend on the volume. -/
theorem keeps_setSlot (nid slot : ℕ) (addr : Address) : Act.Keeps I (setSlot nid slot addr) := by
  intro w r w' hw h
  unfold setSlot at h
  split at h
  · cases h
  · split_ifs at h
    cases h
    exact hhost w _ hw

end

/-- An invariant that every step of the volume keeps. -/
structure Steady (I : World (Volume ι ρ) → Prop) : Prop where
  /-- The state of the volume may change. -/
  host : ∀ w v, I w → I { w with host := v }
  /-- The pages may change. -/
  pages : ∀ w pages, I w → I { w with pages }
  /-- Blocks may be appended. -/
  append : ∀ log, Act.Keeps I (append log)
  /-- Blocks may be released. -/
  release : ∀ addr, Act.Keeps I (release addr)

section

variable (hI : Steady I)

include hI

/-- Writing a node to a log keeps the invariant. -/
theorem keeps_moveNode (nid : ℕ) (log : Option Log) : Act.Keeps I (moveNode nid log) := by
  unfold moveNode
  refine (keeps_read _).bind fun found => ?_
  cases found with
  | none => exact Act.keeps_pure _
  | some n =>
    refine (hI.append log).bind fun written => ?_
    cases written with
    | error status => exact Act.keeps_pure _
    | ok addr =>
      refine (keeps_claim hI.host _ _ _).bind fun _ => (hI.release _).bind fun released => ?_
      cases released with
      | error status => exact Act.keeps_pure _
      | ok _ => exact (keeps_change hI.host _).bind fun _ => Act.keeps_pure _

/-- Writing the block of a file to a log keeps the invariant. -/
theorem keeps_moveData (ino index : ℕ) (log : Option Log) :
    Act.Keeps I (moveData ino index log) := by
  unfold moveData
  refine (keeps_read _).bind fun found => ?_
  cases found with
  | none => exact Act.keeps_pure _
  | some located =>
    refine (hI.append log).bind fun written => ?_
    cases written with
    | error status => exact Act.keeps_pure _
    | ok addr =>
      refine (keeps_claim hI.host _ _ _).bind fun _ => (hI.release _).bind fun released => ?_
      cases released with
      | error status => exact Act.keeps_pure _
      | ok _ => exact (keeps_setSlot hI.host _ _ _).bind fun _ => Act.keeps_pure _

/-- Releasing the blocks of a file keeps the invariant. -/
theorem keeps_punch (ino : ℕ) : ∀ left index : ℕ, Act.Keeps I (punch ino left index)
  | 0, _ => Act.keeps_pure _
  | left + 1, index => by
    unfold punch
    refine (keeps_read _).bind fun found => ?_
    cases found with
    | none => exact Act.keeps_pure _
    | some located =>
      refine (hI.release _).bind fun released => ?_
      cases released with
      | error status => exact Act.keeps_pure _
      | ok _ => exact (keeps_setSlot hI.host _ _ _).bind fun _ => keeps_punch ino left (index + 1)

/-- Finding or making the page of a file keeps the invariant. -/
theorem keeps_filePage (ino index : ℕ) : Act.Keeps I (filePage ino index) := by
  have hnew : Act.Keeps I (newPage (.data ino index)) := by
    intro w r w' hw h
    cases h
    exact hI.pages w _ hw
  unfold filePage
  refine (keeps_read _).bind fun found => ?_
  cases found with
  | some page => exact Act.keeps_pure _
  | none => exact hnew.bind fun _ => (keeps_change hI.host _).bind fun _ => Act.keeps_pure _

/-- Writing a node page keeps the invariant. -/
theorem keeps_placeNode (page : Page) : Act.Keeps I (placeNode page) := by
  unfold placeNode
  cases page.key with
  | node nid => exact keeps_moveNode hI _ _
  | data ino index => exact Act.keeps_pure _

/-- Writing a data page keeps the invariant. -/
theorem keeps_placeData (page : Page) : Act.Keeps I (placeData page) := by
  have hmark : Act.Keeps I (Act.mark page .cold false) := by
    intro w r w' hw h
    cases h
    exact hI.pages w _ hw
  unfold placeData
  cases page.key with
  | node nid => exact Act.keeps_pure _
  | data ino index => exact hmark.bind fun _ => keeps_moveData hI _ _ _

end

/-! ## Calls -/

section

variable {handler : ι → Act (Volume ι ρ) ρ} (hhandler : ∀ action, Act.Keeps I (handler action))

include hhandler

section

variable (hhost : ∀ w v, I w → I { w with host := v })

include hhost

/-- Entering a call keeps what the actions of interruptions keep. -/
theorem keeps_enter (c : Call) : Act.Keeps I (enter handler c) := by
  -- The actions are run one after the other, by induction on their list.
  have hinterrupt : ∀ actions, Act.Keeps I (interrupt handler actions) := by
    intro actions
    induction actions with
    | nil => exact Act.keeps_pure _
    | cons action rest ih =>
      exact (hhandler action).bind fun _ => (keeps_change hhost _).bind fun _ => ih
  exact (keeps_change hhost _).bind fun _ => (keeps_read _).bind fun _ =>
    (keeps_change hhost _).bind fun _ => hinterrupt _

/-- A call that can fail keeps what the actions of interruptions keep. -/
theorem keeps_attempt (c : Call) : Act.Keeps I (attempt handler c) :=
  (keeps_enter hhandler hhost c).bind fun _ => (keeps_read _).bind fun _ =>
    (keeps_change hhost _).bind fun _ => Act.keeps_pure _

/-- A call keeps what its work and the actions of interruptions keep. -/
theorem keeps_serve (c : Call) {α : Type} {work : Act (Volume ι ρ) (Outcome α)}
    (hwork : Act.Keeps I work) : Act.Keeps I (serve handler c work) := by
  refine (keeps_attempt hhandler hhost c).bind fun failed => ?_
  cases failed with
  | some status => exact Act.keeps_pure _
  | none => exact hwork

/-- Writing a checkpoint keeps what the actions of interruptions keep. -/
theorem keeps_writeCheckpoint : Act.Keeps I (backend handler).writeCheckpoint :=
  keeps_phase.bind fun _ => keeps_serve hhandler hhost _ (Act.keeps_pure _)

end

/-- The operations of the volume keep an invariant that its steps and the actions of interruptions
keep. -/
theorem backend_preserves (hI : Steady I) : (backend handler).Preserves I where
  summary _ := keeps_phase.bind fun _ => keeps_serve hhandler hI.host _ (keeps_read _)
  nodeInRange _ := by
    refine (keeps_attempt hhandler hI.host _).bind fun failed => ?_
    cases failed with
    | some status => exact Act.keeps_pure _
    | none => exact keeps_read _
  nodePage _ := keeps_serve hhandler hI.host _ (keeps_read _)
  nodeInfo _ := keeps_serve hhandler hI.host _ (keeps_read _)
  placeNode page := keeps_serve hhandler hI.host _ (keeps_placeNode hI page)
  inode _ := keeps_serve hhandler hI.host _ (keeps_read _)
  isLinked _ := (keeps_enter hhandler hI.host _).bind fun _ => keeps_read _
  dataPage _ _ := keeps_serve hhandler hI.host _
    ((keeps_filePage hI _ _).bind fun _ => Act.keeps_pure _)
  placeData _ page := keeps_serve hhandler hI.host _ (keeps_placeData hI page)
  punch _ _ _ _ := keeps_serve hhandler hI.host _ (keeps_punch hI _ _ _)
  writeback _ := (keeps_enter hhandler hI.host _).bind fun _ => (keeps_read _).bind fun _ =>
    Act.keeps_pure _
  checkpointFailed := (keeps_enter hhandler hI.host _).bind fun _ => keeps_read _

end

/-- The steps of the volume allocate and drop blocks only. -/
theorem steady_written (a : Area) : Steady fun w : World (Volume ι ρ) => a.Written w.area where
  host _ _ hw := hw
  pages _ _ hw := hw
  -- Reading the clock changes nothing, so all that is done is an allocation.
  append log := by
    intro w r w' hw h
    obtain ⟨clock, w₁, hclock, h₁⟩ := Act.bind_eq_ok.mp h
    cases hclock
    obtain ⟨area, hallocate, hw'⟩ := Act.onArea_eq_ok.mp h₁
    subst w'
    exact .allocate hw hallocate
  release addr := by
    intro w r w' hw h
    obtain ⟨area, hinvalidate, hw'⟩ := Act.onArea_eq_ok.mp h
    subst w'
    exact .invalidate hw hinvalidate

/-- The volume only writes if the actions of interruptions leave the area as it is. -/
theorem backend_writesOnly {handler : ι → Act (Volume ι ρ) ρ}
    (hhandler : ∀ action w r w', handler action w = .ok (r, w') → w'.area = w.area) :
    (backend handler).WritesOnly where
  writes a := by
    refine backend_preserves (fun action w r w' hw h => ?_) (steady_written a)
    rw [hhandler action w r w' h]
    exact hw
  writeCheckpoint := by
    intro w r w' h
    refine keeps_writeCheckpoint (I := fun w₁ => w₁.area = w.area) ?_ (fun _ _ hw => hw) rfl h
    intro action w₁ r w₂ hw h
    rw [hhandler action w₁ r w₂ h, hw]

/-! ## A volume of one node -/

/-- A volume of one node, whose calls fail as its faults say. The summary of a segment of two blocks
claims the second one for the node. -/
def oneNode (nid : ℕ) (addr : Address) (seg : ℕ) (faults : List Fault) : Volume Empty Unit :=
  { Volume.empty 1 with
    nodes := [(nid, ⟨nid, addr, 0, 0, #[], ⟨0, .node nid⟩⟩)]
    inodes := [(nid, true)]
    summaries := [(seg, ⟨.node, #[{}, ⟨nid, 0, 0⟩]⟩)]
    lastNid := nid
    faults }

end Reclaim.Volume
