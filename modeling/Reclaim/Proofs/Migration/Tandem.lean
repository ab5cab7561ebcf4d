import Reclaim.Proofs.Migration.Act

/-!
# Two filesystems in tandem

Two operations, each on a world of its own, are in step when from worlds that are related they give
the same answer, or stop for the same reason, and leave related worlds (`Act.InStep`). A pass over a
section does the same with either of two filesystems whose operations are in step, since all that it
does besides is to read the area, count and mark pages (`Backend.inStep_collectSection`). With one
filesystem on both sides this says that a pass keeps every invariant that the operations keep
(`Backend.Preserves.collectSection`).

The worlds need not be related in one way throughout: `Act.Paired` is the relation with one
condition on the worlds before and another one on the answer and the worlds after.
-/

namespace Reclaim

variable {σ σ' α β : Type}

namespace Act

/-! ## Paired operations -/

/-- Two runs of operations stop for the same reason, or give the same answer and worlds for which a
condition on both holds. -/
inductive Alike (Q : α → World σ' → World σ → Prop) :
    Guarded (α × World σ') → Guarded (α × World σ) → Prop
  /-- Both stop. -/
  | stop (t : Trap) : Alike Q (.error t) (.error t)
  /-- Both give an answer. -/
  | give {x : α} {w' : World σ'} {w : World σ} (after : Q x w' w) :
      Alike Q (.ok (x, w')) (.ok (x, w))

/-- From worlds for which the first condition holds two operations run alike, with the second
condition afterwards. -/
def Paired (P : World σ' → World σ → Prop) (m' : Act σ' α) (m : Act σ α)
    (Q : α → World σ' → World σ → Prop) : Prop :=
  ∀ ⦃w' w⦄, P w' w → Alike Q (m' w') (m w)

variable {P : World σ' → World σ → Prop} {m' : Act σ' α} {m : Act σ α}
  {Q : α → World σ' → World σ → Prop}

/-- Paired operations are followed by paired operations. -/
theorem Paired.bind {f' : α → Act σ' β} {f : α → Act σ β} {S : β → World σ' → World σ → Prop}
    (hm : Paired P m' m Q) (hf : ∀ x, Paired (Q x) (f' x) (f x) S) :
    Paired P (m' >>= f') (m >>= f) S := by
  intro w' w hw
  -- Either both stop at the first operation or both go on from its answer.
  have hfirst := hm hw
  show Alike S (m' w' >>= fun x => f' x.1 x.2) (m w >>= fun x => f x.1 x.2)
  generalize m' w' = r' at hfirst ⊢
  generalize m w = r at hfirst ⊢
  cases hfirst with
  | stop t => exact .stop t
  | give after => exact hf _ after

/-- A value is returned on both sides. -/
theorem paired_pure {x : α} (h : ∀ w' w, P w' w → Q x w' w) : Paired P (pure x) (pure x) Q :=
  fun w' w hw => .give (h w' w hw)

/-- The conditions of paired operations can be made stronger before and weaker after. -/
theorem Paired.mono {P₁ : World σ' → World σ → Prop} {Q₁ : α → World σ' → World σ → Prop}
    (h : Paired P m' m Q) (hP : ∀ w' w, P₁ w' w → P w' w)
    (hQ : ∀ x w' w, Q x w' w → Q₁ x w' w) : Paired P₁ m' m Q₁ := by
  intro w' w hw
  have hrun := h (hP w' w hw)
  generalize m' w' = r' at hrun ⊢
  generalize m w = r at hrun ⊢
  cases hrun with
  | stop t => exact .stop t
  | give after => exact .give (hQ _ _ _ after)

/-! ## Operations in step -/

/-- Two operations run alike from related worlds and leave them related. -/
def InStep (R : World σ' → World σ → Prop) (m' : Act σ' α) (m : Act σ α) : Prop :=
  Paired R m' m fun _ => R

variable {R : World σ' → World σ → Prop}

/-- Operations that are in step are followed by such. -/
theorem InStep.bind {f' : α → Act σ' β} {f : α → Act σ β} (hm : InStep R m' m)
    (hf : ∀ x, InStep R (f' x) (f x)) : InStep R (m' >>= f') (m >>= f) :=
  Paired.bind hm hf

/-- Returning a value is in step. -/
theorem inStep_pure (x : α) : InStep R (pure x) (pure x) := paired_pure fun _ _ hw => hw

/-- A check is in step. -/
theorem inStep_check (x : Guarded α) : InStep R (check x) (check x) := by
  intro w' w hw
  cases x with
  | error t => exact .stop t
  | ok x => exact .give hw

/-- Related worlds have the same area and the same pages, and counting and marking pages on both
sides leaves them related. -/
structure Coupling (R : World σ' → World σ → Prop) : Prop where
  /-- The areas are the same. -/
  area : ∀ {w' w}, R w' w → w'.area = w.area
  /-- The flags of the pages are the same. -/
  pages : ∀ {w' w}, R w' w → w'.pages = w.pages
  /-- An event is counted on both sides. -/
  count : ∀ {w' w} (f : Tally → Tally), R w' w →
    R { w' with collector := { w'.collector with tally := f w'.collector.tally } }
      { w with collector := { w.collector with tally := f w.collector.tally } }
  /-- The flags of the pages are changed on both sides. -/
  mark : ∀ {w' w} (pages : PageCache), R w' w → R { w' with pages } { w with pages }

section

variable (hR : Coupling R)

include hR

/-- Reading the area is in step. -/
theorem inStep_readArea (f : Area → α) : InStep R (readArea f) (readArea f) := by
  intro w' w hw
  unfold readArea
  rw [hR.area hw]
  exact .give hw

/-- Asking the area is in step. -/
theorem inStep_askArea (f : Area → Guarded α) : InStep R (askArea f) (askArea f) := by
  intro w' w hw
  unfold askArea
  rw [hR.area hw]
  cases f w.area with
  | error t => exact .stop t
  | ok x => exact .give hw

/-- Counting an event is in step. -/
theorem inStep_count (f : Tally → Tally) : InStep R (count f) (count f) :=
  fun _ _ hw => .give (hR.count f hw)

/-- Marking a page is in step. -/
theorem inStep_mark (p : Page) (flag : PageFlag) (value : Bool) :
    InStep R (mark p flag value) (mark p flag value) := by
  intro w' w hw
  unfold mark
  rw [hR.pages hw]
  exact .give (hR.mark _ hw)

end

/-! ## An operation beside itself -/

/-- Two worlds are the same and have an invariant. -/
def Both (I : World σ → Prop) (w' w : World σ) : Prop := w' = w ∧ I w

variable {I : World σ → Prop}

/-- An operation that keeps an invariant is in step with itself. -/
theorem Keeps.inStep {m : Act σ α} (h : Keeps I m) : InStep (Both I) m m := by
  rintro w _ ⟨rfl, hw⟩
  cases hrun : m w with
  | error t => exact .stop t
  | ok x => exact .give ⟨rfl, h hw hrun⟩

/-- Paired operations on one world are the same there, and leave it with the second condition. -/
theorem Paired.same {m' m : Act σ α} {J : α → World σ → Prop}
    (h : Paired (Both I) m' m fun x => Both (J x)) {w : World σ} (hw : I w) :
    m' w = m w ∧ ∀ x w₁, m w = .ok (x, w₁) → J x w₁ := by
  have hrun := h ⟨rfl, hw⟩
  generalize m' w = r' at hrun ⊢
  generalize m w = r at hrun ⊢
  cases hrun with
  | stop t => exact ⟨rfl, nofun⟩
  | give after =>
    obtain ⟨rfl, hw₁⟩ := after
    refine ⟨rfl, fun x w₁ heq => ?_⟩
    cases heq
    exact hw₁

/-- An operation that is in step with itself keeps the invariant. -/
theorem InStep.keeps {m : Act σ α} (h : InStep (Both I) m m) : Keeps I m :=
  fun _ x w₁ hw hrun => (Paired.same h hw).2 x w₁ hrun

/-- Worlds with a lasting invariant are coupled to themselves. -/
theorem Lasting.coupling (hI : Lasting I) : Coupling (Both I) where
  area hw := by rw [hw.1]
  pages hw := by rw [hw.1]
  count {_ w} f hw := ⟨by rw [hw.1], hI w _ rfl rfl hw.2⟩
  mark {_ w} pages hw := ⟨by rw [hw.1], hI w _ rfl rfl hw.2⟩

end Act

namespace Backend

open Act

/-- The operations of two filesystems that passes call are in step. -/
structure InStep (R : World σ' → World σ → Prop) (b' : Backend σ') (b : Backend σ) : Prop where
  /-- Reading a summary. -/
  summary : ∀ seg, Act.InStep R (b'.summary seg) (b.summary seg)
  /-- Testing a node number. -/
  nodeInRange : ∀ nid, Act.InStep R (b'.nodeInRange nid) (b.nodeInRange nid)
  /-- Loading a node. -/
  nodePage : ∀ nid, Act.InStep R (b'.nodePage nid) (b.nodePage nid)
  /-- Looking a node up. -/
  nodeInfo : ∀ nid, Act.InStep R (b'.nodeInfo nid) (b.nodeInfo nid)
  /-- Giving a node a new block. -/
  placeNode : ∀ page, Act.InStep R (b'.placeNode page) (b.placeNode page)
  /-- Finding an inode. -/
  inode : ∀ ino, Act.InStep R (b'.inode ino) (b.inode ino)
  /-- Asking whether an inode is linked. -/
  isLinked : ∀ inode, Act.InStep R (b'.isLinked inode) (b.isLinked inode)
  /-- Finding a page of a file. -/
  dataPage : ∀ inode index, Act.InStep R (b'.dataPage inode index) (b.dataPage inode index)
  /-- Giving a page of a file a new block. -/
  placeData : ∀ inode page, Act.InStep R (b'.placeData inode page) (b.placeData inode page)
  /-- Releasing blocks of a file. -/
  punch : ∀ inode start stop evict,
    Act.InStep R (b'.punch inode start stop evict) (b.punch inode start stop evict)
  /-- Handing pages to the writer. -/
  writeback : ∀ batch, Act.InStep R (b'.writeback batch) (b.writeback batch)

section Passes

variable {R : World σ' → World σ → Prop} {b' : Backend σ'} {b : Backend σ} (hR : Coupling R)

include hR

/-- Passing over a stale entry is in step. -/
theorem inStep_passStale : Act.InStep R passStale passStale :=
  (inStep_count hR _).bind fun _ => inStep_pure _

/-- Settling a marked page is in step if placing it is. -/
theorem inStep_settle {place' : Page → Act σ' (Outcome Address)}
    {place : Page → Act σ (Outcome Address)} {page : Page}
    (hplace : Act.InStep R (place' page) (place page)) (trigger : Trigger) :
    Act.InStep R (settle place' trigger page) (settle place trigger page) := by
  -- Only a foreground pass places the page; in the background it is left to the writer.
  cases trigger with
  | background => exact inStep_pure _
  | foreground =>
    refine Act.InStep.bind hplace fun placed => ?_
    cases placed with
    | error status => exact inStep_pure _
    | ok addr => exact (inStep_mark hR _ _ _).bind fun _ => inStep_pure _

variable (hb : InStep R b' b)

include hb

/-- Handing over a batch is in step. -/
theorem inStep_flush (batch : List Page) : Act.InStep R (b'.flush batch) (b.flush batch) := by
  unfold flush
  split_ifs
  · exact inStep_pure _
  · exact (hb.writeback batch).bind fun _ => inStep_count hR _

/-- Visiting a block as that of a node is in step. -/
theorem inStep_visitNode (trigger : Trigger) (addr : Address) (entry : Summary) :
    Act.InStep R (b'.visitNode trigger addr entry) (b.visitNode trigger addr entry) := by
  unfold visitNode
  refine (hb.nodeInRange _).bind fun inRange => ?_
  split_ifs
  · refine (hb.nodePage _).bind fun page => ?_
    cases page with
    | error status => exact inStep_passStale hR
    | ok node =>
      refine (hb.nodeInfo _).bind fun info => ?_
      cases info with
      | error status => exact inStep_passStale hR
      | ok info =>
        dsimp only
        split_ifs
        · exact (inStep_mark hR _ _ _).bind fun _ => (inStep_count hR _).bind fun _ =>
            inStep_settle hR (hb.placeNode _) _
        · exact inStep_passStale hR
  · exact inStep_passStale hR

omit hR in
/-- Looking for the node that points at a block is in step. -/
theorem inStep_claimant? (entry : Summary) (addr : Address) :
    Act.InStep R (b'.claimant? entry addr) (b.claimant? entry addr) := by
  unfold claimant?
  refine (hb.nodeInRange _).bind fun inRange => ?_
  split_ifs
  · refine (hb.nodePage _).bind fun page => ?_
    cases page with
    | error status => exact inStep_pure _
    | ok node =>
      refine (hb.nodeInfo _).bind fun info => ?_
      cases info with
      | error status => exact inStep_pure _
      | ok info =>
        dsimp only
        split_ifs
        · refine (hb.inode _).bind fun inode => ?_
          cases inode <;> exact inStep_pure _
        · refine (hb.inode _).bind fun inode => ?_
          cases inode <;> exact inStep_pure _
        · exact inStep_pure _
  · exact inStep_pure _

omit hR in
/-- Looking for the owner of a block is in step. -/
theorem inStep_owner? (entry : Summary) (addr : Address) :
    Act.InStep R (b'.owner? entry addr) (b.owner? entry addr) := by
  unfold owner?
  refine (inStep_claimant? hb entry addr).bind fun claimant => ?_
  cases claimant with
  | none => exact inStep_pure _
  | some _ => exact (inStep_check _).bind fun _ => inStep_pure _

/-- Visiting a block as that of a file is in step. -/
theorem inStep_visitData (trigger : Trigger) (addr : Address) (entry : Summary) :
    Act.InStep R (b'.visitData trigger addr entry) (b.visitData trigger addr entry) := by
  unfold visitData
  refine (inStep_owner? hb _ _).bind fun owner => ?_
  cases owner with
  | none => exact inStep_passStale hR
  | some owner =>
    refine (hb.isLinked _).bind fun linked => ?_
    split_ifs
    · refine (hb.dataPage _ _).bind fun page => ?_
      cases page with
      | error status => exact inStep_pure _
      | ok page =>
        exact (inStep_mark hR _ _ _).bind fun _ => (inStep_mark hR _ _ _).bind fun _ =>
          (inStep_count hR _).bind fun _ => inStep_settle hR (hb.placeData _ _) _
    · refine (inStep_check _).bind fun stop => (hb.punch _ _ _ _).bind fun punched => ?_
      cases punched with
      | error status => exact inStep_pure _
      | ok _ => exact (inStep_count hR _).bind fun _ => inStep_pure _

/-- Walks are in step if their visits are. -/
theorem inStep_walk {visit' : Address → Summary → Act σ' Visit}
    {visit : Address → Summary → Act σ Visit} (hvisit : ∀ addr entry,
      Act.InStep R (visit' addr entry) (visit addr entry)) {trigger : Trigger} {seg : ℕ}
    {start : Address} (entries : List Summary) (off : ℕ) (batch : List Page) :
    Act.InStep R (b'.walk visit' trigger seg start entries off batch)
      (b.walk visit trigger seg start entries off batch) := by
  -- Induction on the entries that are left; both walks hand over the same batch at each way out.
  induction entries generalizing off batch with
  | nil =>
    unfold walk
    exact (inStep_flush hR hb batch).bind fun _ => inStep_pure _
  | cons entry entries ih =>
    unfold walk
    refine Act.InStep.bind (inStep_readArea hR _) fun yielding => ?_
    split_ifs
    · exact (inStep_flush hR hb batch).bind fun _ => inStep_pure _
    · refine Act.InStep.bind (inStep_askArea hR _) fun live => ?_
      split_ifs
      · refine (hvisit _ _).bind fun visited => ?_
        cases visited with
        | passed => exact ih _ _
        | placed page => exact ih _ _
        | failed status => exact (inStep_flush hR hb batch).bind fun _ => inStep_pure _
      · exact ih _ _

/-- Moving the live blocks of a node segment is in step. -/
theorem inStep_collectNodes (sum : SummaryBlock) (seg : ℕ) (trigger : Trigger) :
    Act.InStep R (b'.collectNodes sum seg trigger) (b.collectNodes sum seg trigger) := by
  unfold collectNodes
  exact (inStep_askArea hR _).bind fun start =>
    inStep_walk hR hb (inStep_visitNode hR hb trigger) _ _ _

/-- Moving the live blocks of a data segment is in step. -/
theorem inStep_collectData (sum : SummaryBlock) (seg : ℕ) (trigger : Trigger) :
    Act.InStep R (b'.collectData sum seg trigger) (b.collectData sum seg trigger) := by
  unfold collectData
  refine (inStep_askArea hR _).bind fun start =>
    (inStep_walk hR hb (inStep_visitData hR hb trigger) _ _ _).bind fun result => ?_
  cases result with
  | error status => exact inStep_pure _
  | ok _ =>
    -- A foreground pass looks whether the segment has become empty.
    cases trigger with
    | background => exact inStep_pure _
    | foreground =>
      refine (inStep_askArea hR _).bind fun live => ?_
      split_ifs <;> exact inStep_pure _

/-- Moving the live blocks of a segment is in step. -/
theorem inStep_collectSegment (trigger : Trigger) (seg : ℕ) :
    Act.InStep R (b'.collectSegment trigger seg) (b.collectSegment trigger seg) := by
  unfold collectSegment
  refine (hb.summary _).bind fun sum => ?_
  cases sum with
  | error status => exact inStep_pure _
  | ok sum =>
    refine (inStep_count hR _).bind fun _ => (inStep_askArea hR _).bind fun segment => ?_
    split_ifs
    · exact inStep_collectNodes hR hb _ _ _
    · exact inStep_collectData hR hb _ _ _

/-- Moving the live blocks of a list of segments is in step. -/
theorem inStep_collectSegments (trigger : Trigger) (segs : List ℕ) :
    Act.InStep R (b'.collectSegments trigger segs) (b.collectSegments trigger segs) := by
  induction segs with
  | nil => exact inStep_pure _
  | cons seg segs ih =>
    unfold collectSegments
    refine Act.InStep.bind (inStep_askArea hR _) fun live => ?_
    split_ifs
    · exact ih
    · refine (inStep_collectSegment hR hb trigger seg).bind fun result => ?_
      cases result with
      | error status => exact inStep_pure _
      | ok _ => exact ih

/-- Collecting a section is in step. -/
theorem inStep_collectSection (start : ℕ) (trigger : Trigger) :
    Act.InStep R (b'.collectSection start trigger) (b.collectSection start trigger) := by
  unfold collectSection
  refine Act.InStep.bind (inStep_readArea hR _) fun g => ?_
  split_ifs
  · exact inStep_pure _
  · exact (inStep_collectSegments hR hb _ _).bind fun result => (inStep_count hR _).bind fun _ =>
      inStep_pure _

end Passes

/-! ## What passes preserve -/

namespace Preserves

variable {b : Backend σ} {I : World σ → Prop}

/-- A filesystem that keeps an invariant is in step with itself. -/
theorem inStep (hb : b.Preserves I) : InStep (Both I) b b where
  summary seg := (hb.summary seg).inStep
  nodeInRange nid := (hb.nodeInRange nid).inStep
  nodePage nid := (hb.nodePage nid).inStep
  nodeInfo nid := (hb.nodeInfo nid).inStep
  placeNode page := (hb.placeNode page).inStep
  inode ino := (hb.inode ino).inStep
  isLinked inode := (hb.isLinked inode).inStep
  dataPage inode index := (hb.dataPage inode index).inStep
  placeData inode page := (hb.placeData inode page).inStep
  punch inode start stop evict := (hb.punch inode start stop evict).inStep
  writeback batch := (hb.writeback batch).inStep

/-- Moving the live blocks of a node segment keeps the invariant. -/
theorem collectNodes (hb : b.Preserves I) (hI : Act.Lasting I) (sum : SummaryBlock) (seg : ℕ)
    (trigger : Trigger) : Act.Keeps I (b.collectNodes sum seg trigger) :=
  (inStep_collectNodes hI.coupling hb.inStep sum seg trigger).keeps

/-- Moving the live blocks of a segment keeps the invariant. -/
theorem collectSegment (hb : b.Preserves I) (hI : Act.Lasting I) (trigger : Trigger) (seg : ℕ) :
    Act.Keeps I (b.collectSegment trigger seg) :=
  (inStep_collectSegment hI.coupling hb.inStep trigger seg).keeps

/-- Collecting a section keeps the invariant. -/
theorem collectSection (hb : b.Preserves I) (hI : Act.Lasting I) (trigger : Trigger) (start : ℕ) :
    Act.Keeps I (b.collectSection start trigger) :=
  (inStep_collectSection hI.coupling hb.inStep start trigger).keeps

end Preserves

end Backend

end Reclaim
