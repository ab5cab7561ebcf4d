import Reclaim.Migration.Run
import Reclaim.Proofs.Area.Writing

/-!
# Invariants of operations on the world

An operation keeps an invariant (`Act.Keeps`) when every run of it from a world with the invariant
ends in one. Most steps of collection touch neither the area nor what the filesystem keeps for
itself, so they keep every invariant of these two (`Act.Lasting`). What is left to show of a walk
over a segment is that the visits keep the invariant, and a pass keeps what its walks keep
(`Backend.keeps_walk`, `Backend.keeps_collectSection`). `Backend.Preserves` says that each operation
of the filesystem keeps it. A filesystem that only allocates and drops blocks is one whose operations
keep that (`Backend.WritesOnly`).
-/

namespace Reclaim

namespace Act

variable {σ α β : Type}

/-- A value of two operations in a row is a value of the second at a value of the first. -/
theorem bind_eq_ok {m : Act σ α} {f : α → Act σ β} {w w' : World σ} {r : β} :
    (m >>= f) w = .ok (r, w') ↔ ∃ x w₁, m w = .ok (x, w₁) ∧ f x w₁ = .ok (r, w') := by
  show (m w >>= fun p => f p.1 p.2) = .ok (r, w') ↔ _
  rw [Guarded.bind_eq_ok]
  constructor
  · rintro ⟨⟨x, w₁⟩, hm, hf⟩
    exact ⟨x, w₁, hm, hf⟩
  · rintro ⟨x, w₁, hm, hf⟩
    exact ⟨(x, w₁), hm, hf⟩

/-- Two operations in a row go on from where the first ends. -/
theorem bind_of_ok {m : Act σ α} {w w₁ : World σ} {x : α} (h : m w = .ok (x, w₁))
    (f : α → Act σ β) : (m >>= f) w = f x w₁ := by
  show (m w >>= fun p => f p.1 p.2) = f x w₁
  rw [h, Guarded.ok_bind]

/-- Two operations in a row stop where the first does. -/
theorem bind_of_error {m : Act σ α} {w : World σ} {t : Trap} (h : m w = .error t)
    (f : α → Act σ β) : (m >>= f) w = .error t := by
  show (m w >>= fun p => f p.1 p.2) = .error t
  rw [h, Guarded.error_bind]

/-- A returned value leaves the world as it is. -/
theorem pure_eq_ok {x r : α} {w w' : World σ} :
    (pure x : Act σ α) w = .ok (r, w') ↔ r = x ∧ w' = w := by
  constructor
  · intro h
    cases h
    exact ⟨rfl, rfl⟩
  · rintro ⟨rfl, rfl⟩
    rfl

/-- Asking the area leaves the world as it is. -/
theorem askArea_eq_ok {f : Area → Guarded α} {w w' : World σ} {r : α} :
    askArea f w = .ok (r, w') ↔ f w.area = .ok r ∧ w' = w := by
  unfold askArea
  rw [Guarded.bind_eq_ok]
  constructor
  · rintro ⟨x, hx, h⟩
    cases h
    exact ⟨hx, rfl⟩
  · rintro ⟨hx, rfl⟩
    exact ⟨r, hx, rfl⟩

/-- A check that is passed leaves the world as it is. -/
theorem check_eq_ok {x : Guarded α} {w w' : World σ} {r : α} :
    check x w = .ok (r, w') ↔ x = .ok r ∧ w' = w := askArea_eq_ok

/-- A check that is not passed stops what comes after it. -/
theorem check_bind_error {x : Guarded α} {t : Trap} (h : x = .error t) (f : α → Act σ β)
    (w : World σ) : (check x >>= f) w = .error t :=
  bind_of_error (by subst h; rfl) f

/-- An operation of the area changes the area alone. -/
theorem onArea_eq_ok {f : Area → Guarded (α × Area)} {w w' : World σ} {r : α} :
    onArea f w = .ok (r, w') ↔ ∃ area, f w.area = .ok (r, area) ∧ w' = { w with area } := by
  unfold onArea
  rw [Guarded.bind_eq_ok]
  constructor
  · rintro ⟨⟨x, area⟩, hx, h⟩
    cases h
    exact ⟨area, hx, rfl⟩
  · rintro ⟨area, hx, rfl⟩
    exact ⟨(r, area), hx, rfl⟩

/-! ## Keeping an invariant -/

/-- Every run of an operation from a world with the invariant ends in one. -/
def Keeps (I : World σ → Prop) (m : Act σ α) : Prop :=
  ∀ ⦃w r w'⦄, I w → m w = .ok (r, w') → I w'

/-- An invariant of the area and of what the filesystem keeps for itself. -/
def Lasting (I : World σ → Prop) : Prop :=
  ∀ w w' : World σ, w'.area = w.area → w'.host = w.host → I w → I w'

/-- What holds of the area alone is lasting. -/
theorem lasting_area (P : Area → Prop) : Lasting fun w : World σ => P w.area := by
  intro w w' harea _ hw
  rw [harea]
  exact hw

variable {I : World σ → Prop}

/-- Operations in a row keep an invariant. -/
theorem Keeps.bind {m : Act σ α} {f : α → Act σ β} (hm : Keeps I m) (hf : ∀ x, Keeps I (f x)) :
    Keeps I (m >>= f) := by
  intro w r w' hw h
  obtain ⟨x, w₁, hx, h⟩ := bind_eq_ok.mp h
  exact hf x (hm hw hx) h

/-- A returned value keeps every invariant. -/
theorem keeps_pure (x : α) : Keeps I (pure x : Act σ α) := by
  intro w r w' hw h
  obtain ⟨-, rfl⟩ := pure_eq_ok.mp h
  exact hw

/-- Reading the area keeps every invariant. -/
theorem keeps_readArea (f : Area → α) : Keeps I (readArea f) := by
  intro w r w' hw h
  cases h
  exact hw

/-- Asking the area keeps every invariant. -/
theorem keeps_askArea (f : Area → Guarded α) : Keeps I (askArea f) := by
  intro w r w' hw h
  obtain ⟨-, rfl⟩ := askArea_eq_ok.mp h
  exact hw

/-- Counting an event keeps a lasting invariant. -/
theorem keeps_count (hI : Lasting I) (f : Tally → Tally) : Keeps I (count f) := by
  intro w r w' hw h
  cases h
  exact hI w _ rfl rfl hw

/-- Marking a page keeps a lasting invariant. -/
theorem keeps_mark (hI : Lasting I) (p : Page) (flag : PageFlag) (value : Bool) :
    Keeps I (mark p flag value) := by
  intro w r w' hw h
  cases h
  exact hI w _ rfl rfl hw

end Act

namespace Backend

variable {σ : Type} {b : Backend σ} {I : World σ → Prop}

/-- Handing over a batch keeps what the writer keeps. -/
theorem keeps_flush (hI : Act.Lasting I) (hwriteback : ∀ batch, Act.Keeps I (b.writeback batch))
    (batch : List Page) : Act.Keeps I (b.flush batch) := by
  unfold flush
  split_ifs
  · exact Act.keeps_pure _
  · exact (hwriteback batch).bind fun accepted => Act.keeps_count hI _

/-- Passing over a stale entry keeps a lasting invariant. -/
theorem keeps_passStale (hI : Act.Lasting I) : Act.Keeps I (passStale (σ := σ)) :=
  (Act.keeps_count hI _).bind fun _ => Act.keeps_pure _

/-- A walk keeps what the writer and the visits of live blocks keep. -/
theorem keeps_walk (hI : Act.Lasting I) (hwriteback : ∀ batch, Act.Keeps I (b.writeback batch))
    {visit : Address → Summary → Act σ Visit} {trigger : Trigger} {seg : ℕ} {start : Address}
    (hvisit : ∀ off entry w r w', I w → w.area.isLive seg off = .ok true →
      visit (start + off) entry w = .ok (r, w') → I w') :
    ∀ (entries : List Summary) (off : ℕ) (batch : List Page),
      Act.Keeps I (b.walk visit trigger seg start entries off batch) := by
  have hflush := keeps_flush hI hwriteback
  intro entries
  induction entries with
  | nil =>
    intro off batch
    unfold walk
    exact (hflush batch).bind fun _ => Act.keeps_pure _
  | cons entry entries ih =>
    intro off batch
    unfold walk
    refine Act.Keeps.bind (Act.keeps_readArea _) fun yielding => ?_
    split_ifs
    · exact (hflush batch).bind fun _ => Act.keeps_pure _
    · intro w r w' hw h
      -- A dead block is passed over; a live one is visited, and the walk goes on unless that fails.
      obtain ⟨live, w₁, hlive, h⟩ := Act.bind_eq_ok.mp h
      obtain ⟨hlive, rfl⟩ := Act.askArea_eq_ok.mp hlive
      cases live with
      | false => exact ih _ _ hw h
      | true =>
        rw [if_pos rfl] at h
        obtain ⟨visited, w₂, hvisited, h⟩ := Act.bind_eq_ok.mp h
        have hw₂ := hvisit off entry _ _ _ hw hlive hvisited
        cases visited with
        | passed => exact ih _ _ hw₂ h
        | placed page => exact ih _ _ hw₂ h
        | failed status => exact ((hflush batch).bind fun _ => Act.keeps_pure _) hw₂ h

/-- Moving the live blocks of a node segment keeps what the visits keep. The walk begins at the first
block of the segment in the world where the geometry is read. -/
theorem keeps_collectNodes (hI : Act.Lasting I)
    (hwriteback : ∀ batch, Act.Keeps I (b.writeback batch)) {trigger : Trigger} {seg : ℕ}
    (hvisit : ∀ w₀ off entry w r w', I w₀ → I w → w.area.isLive seg off = .ok true →
      b.visitNode trigger (w₀.area.geometry.startBlock seg + off) entry w = .ok (r, w') → I w')
    (sum : SummaryBlock) : Act.Keeps I (b.collectNodes sum seg trigger) := by
  intro w r w' hw h
  unfold collectNodes at h
  obtain ⟨start, w₁, hasked, h₁⟩ := Act.bind_eq_ok.mp h
  obtain ⟨hstart, hw₁⟩ := Act.askArea_eq_ok.mp hasked
  subst w₁
  obtain ⟨-, rfl⟩ := Geometry.checkedStart_eq_ok.mp hstart
  exact keeps_walk hI hwriteback (fun off entry w₂ r w₃ hw₂ hlive hrun =>
    hvisit w off entry w₂ r w₃ hw hw₂ hlive hrun) _ _ _ hw h₁

/-- Moving the live blocks of a data segment keeps what the visits keep. -/
theorem keeps_collectData (hI : Act.Lasting I)
    (hwriteback : ∀ batch, Act.Keeps I (b.writeback batch)) {trigger : Trigger} {seg : ℕ}
    (hvisit : ∀ w₀ off entry w r w', I w₀ → I w → w.area.isLive seg off = .ok true →
      b.visitData trigger (w₀.area.geometry.startBlock seg + off) entry w = .ok (r, w') → I w')
    (sum : SummaryBlock) : Act.Keeps I (b.collectData sum seg trigger) := by
  intro w r w' hw h
  unfold collectData at h
  obtain ⟨start, w₁, hasked, h₁⟩ := Act.bind_eq_ok.mp h
  obtain ⟨hstart, hw₁⟩ := Act.askArea_eq_ok.mp hasked
  subst w₁
  obtain ⟨-, rfl⟩ := Geometry.checkedStart_eq_ok.mp hstart
  obtain ⟨result, w₂, hresult, h₂⟩ := Act.bind_eq_ok.mp h₁
  have hw₂ := keeps_walk hI hwriteback (fun off entry w₃ r w₄ hw₃ hlive hrun =>
    hvisit w off entry w₃ r w₄ hw hw₃ hlive hrun) _ _ _ hw hresult
  cases result with
  | error status => exact Act.keeps_pure _ hw₂ h₂
  | ok _ =>
    -- What is left is the test that the segment has become empty.
    cases trigger with
    | background => exact Act.keeps_pure _ hw₂ h₂
    | foreground =>
      refine (Act.keeps_askArea _).bind (fun live => ?_) hw₂ h₂
      split_ifs <;> exact Act.keeps_pure _

/-- Moving the live blocks of a segment keeps what its visits keep. -/
theorem keeps_collectSegment (hI : Act.Lasting I)
    (hsummary : ∀ seg, Act.Keeps I (b.summary seg))
    (hwriteback : ∀ batch, Act.Keeps I (b.writeback batch)) {trigger : Trigger} {seg : ℕ}
    (hvisit : ∀ w₀ off entry visit w r w',
      visit = b.visitNode trigger ∨ visit = b.visitData trigger → I w₀ → I w →
      w.area.isLive seg off = .ok true →
      visit (w₀.area.geometry.startBlock seg + off) entry w = .ok (r, w') → I w') :
    Act.Keeps I (b.collectSegment trigger seg) := by
  unfold collectSegment
  refine (hsummary seg).bind fun sum => ?_
  cases sum with
  | error status => exact Act.keeps_pure _
  | ok sum =>
    refine (Act.keeps_count hI _).bind fun _ => (Act.keeps_askArea _).bind fun segment => ?_
    split_ifs
    · exact keeps_collectNodes hI hwriteback
        (fun w₀ off entry w r w' => hvisit w₀ off entry _ w r w' (Or.inl rfl)) sum
    · exact keeps_collectData hI hwriteback
        (fun w₀ off entry w r w' => hvisit w₀ off entry _ w r w' (Or.inr rfl)) sum

/-- Moving the live blocks of a list of segments keeps what each of them keeps. -/
theorem keeps_collectSegments {trigger : Trigger} :
    ∀ {segs : List ℕ}, (∀ seg ∈ segs, Act.Keeps I (b.collectSegment trigger seg)) →
      Act.Keeps I (b.collectSegments trigger segs)
  | [], _ => Act.keeps_pure _
  | seg :: segs, hsegs => by
    have hrest := keeps_collectSegments fun s hs => hsegs s (List.mem_cons_of_mem _ hs)
    unfold collectSegments
    refine Act.Keeps.bind (Act.keeps_askArea _) fun live => ?_
    split_ifs
    · exact hrest
    · refine Act.Keeps.bind (hsegs seg List.mem_cons_self) fun result => ?_
      cases result with
      | error status => exact Act.keeps_pure _
      | ok _ => exact hrest

/-- Collecting a section keeps what moving the blocks of its segments keeps. -/
theorem keeps_collectSection (hI : Act.Lasting I) {trigger : Trigger} {start : ℕ}
    (hsegs : ∀ w, I w → start < w.area.geometry.segments →
      start % w.area.geometry.segmentsPerSection = 0 →
      ∀ seg ∈ List.range' start w.area.geometry.segmentsPerSection,
        Act.Keeps I (b.collectSegment trigger seg)) :
    Act.Keeps I (b.collectSection start trigger) := by
  intro w r w' hw h
  unfold collectSection at h
  obtain ⟨g, w₁, hg, h⟩ := Act.bind_eq_ok.mp h
  cases hg
  dsimp only at h
  split_ifs at h with hrefused
  · exact Act.keeps_pure _ hw h
  · rw [not_or, Nat.not_le, not_not] at hrefused
    obtain ⟨result, w₂, hresult, h⟩ := Act.bind_eq_ok.mp h
    have hw₂ := keeps_collectSegments (hsegs w hw hrefused.1 hrefused.2) hw hresult
    exact ((Act.keeps_count hI _).bind fun _ => Act.keeps_pure _) hw₂ h

/-! ## Filesystems that keep an invariant -/

/-- The operations of a filesystem that keep an invariant: all but the writing of checkpoints. -/
structure Preserves (b : Backend σ) (I : World σ → Prop) : Prop where
  /-- Reading a summary. -/
  summary : ∀ seg, Act.Keeps I (b.summary seg)
  /-- Testing a node number. -/
  nodeInRange : ∀ nid, Act.Keeps I (b.nodeInRange nid)
  /-- Loading a node. -/
  nodePage : ∀ nid, Act.Keeps I (b.nodePage nid)
  /-- Looking a node up. -/
  nodeInfo : ∀ nid, Act.Keeps I (b.nodeInfo nid)
  /-- Giving a node a new block. -/
  placeNode : ∀ page, Act.Keeps I (b.placeNode page)
  /-- Finding an inode. -/
  inode : ∀ ino, Act.Keeps I (b.inode ino)
  /-- Asking whether an inode is linked. -/
  isLinked : ∀ inode, Act.Keeps I (b.isLinked inode)
  /-- Finding a page of a file. -/
  dataPage : ∀ inode index, Act.Keeps I (b.dataPage inode index)
  /-- Giving a page of a file a new block. -/
  placeData : ∀ inode page, Act.Keeps I (b.placeData inode page)
  /-- Releasing blocks of a file. -/
  punch : ∀ inode start stop evict, Act.Keeps I (b.punch inode start stop evict)
  /-- Handing pages to the writer. -/
  writeback : ∀ batch, Act.Keeps I (b.writeback batch)
  /-- Asking whether a checkpoint has failed. -/
  checkpointFailed : Act.Keeps I b.checkpointFailed

/-- Whether the operations of a filesystem change the area by allocating and dropping blocks only.
-/
structure WritesOnly (b : Backend σ) : Prop where
  /-- The operations but the writing of checkpoints allocate and drop blocks only. -/
  writes : ∀ a : Area, b.Preserves fun w => a.Written w.area
  /-- Writing a checkpoint leaves the area as it is. -/
  writeCheckpoint : ∀ {w r w'}, b.writeCheckpoint w = .ok (r, w') → w'.area = w.area

end Backend

end Reclaim
