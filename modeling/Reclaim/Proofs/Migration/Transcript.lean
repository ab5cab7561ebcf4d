import Reclaim.Proofs.Migration.Act

/-!
# Transcripts of a pass

Whatever a pass does to the world beside counting is to make queries to the filesystem and to raise
flags of pages. Its transcript is the list of these deeds. Two things tie a transcript to a run.
`Backend.Goes` says that the deeds lead from one world to another: each query was made in the world
that the deeds before it had left, and answered as the transcript says. And a filesystem that writes
down what it is asked (`Backend.recorded`) shows that these queries were made and no others.

What the counters make of a transcript is read off its findings (`findings`): the summaries that
were read, the pages that were marked to be moved, and what became of the other blocks that were not
stale. `Backend.Stands` says where the counters stand, of a filesystem that leaves them alone.

`Act.Does` says what the transcript of an operation looks like. It speaks of every run: one that
stops was stopped by a query that the filesystem did not survive, by a segment that the area does
not have, or by a block whose place in its file does not fit 64 bits (`Backend.Stops`). The rules
below take the two runs of an operation, the recorded one and the plain one, apart together.
-/

namespace Reclaim

variable {σ α β : Type}

/-! ## Queries -/

/-- A request to the filesystem, with its arguments. -/
inductive Query where
  /-- The summary of a segment is read. -/
  | summary (seg : ℕ)
  /-- A node number is tested. -/
  | nodeInRange (nid : ℕ)
  /-- A node is loaded. -/
  | nodePage (nid : ℕ)
  /-- A node is looked up. -/
  | nodeInfo (nid : ℕ)
  /-- A node page is given a block. -/
  | placeNode (page : Page)
  /-- An inode is found. -/
  | inode (ino : ℕ)
  /-- An inode is asked whether it is linked. -/
  | isLinked (inode : Inode)
  /-- A page of a file is found. -/
  | dataPage (inode : Inode) (index : ℕ)
  /-- A page of a file is given a block. -/
  | placeData (inode : Inode) (page : Page)
  /-- The blocks of a file are released from one index up to another. -/
  | punch (inode : Inode) (start stop : ℕ) (evict : Bool)
  /-- Pages are handed to the writer. -/
  | writeback (batch : List Page)
  /-- The filesystem is asked whether a checkpoint has failed. -/
  | checkpointFailed
  /-- A checkpoint is written. -/
  | writeCheckpoint

namespace Query

/-- What a query is answered with. -/
abbrev Answer : Query → Type
  | summary _ => Outcome SummaryBlock
  | nodeInRange _ => Bool
  | nodePage _ => Outcome NodePage
  | nodeInfo _ => Outcome NodeInfo
  | placeNode _ => Outcome Address
  | inode _ => Outcome Inode
  | isLinked _ => Bool
  | dataPage _ _ => Outcome Page
  | placeData _ _ => Outcome Address
  | punch _ _ _ _ => Outcome Unit
  | writeback _ => ℕ
  | checkpointFailed => Bool
  | writeCheckpoint => Outcome Unit

/-- Whether a query only looks something up. -/
def IsLookup : Query → Prop
  | summary _ | nodeInRange _ | nodePage _ | nodeInfo _ | inode _ | isLinked _
  | dataPage _ _ => True
  | _ => False

/-- Whether a pass makes a query. It has nothing to do with checkpoints, releases one index of a
file at a time, and places pages and hands them over in the foreground only. -/
def Allowed (trigger : Trigger) : Query → Prop
  | placeNode _ | placeData _ _ | writeback _ => trigger = .foreground
  | punch _ start stop evict => stop = start + 1 ∧ evict = true
  | checkpointFailed | writeCheckpoint => False
  | _ => True

end Query

/-- A query and the answer to it. -/
abbrev Exchange := (q : Query) × q.Answer

/-- Makes a query to a filesystem. -/
def Backend.ask (b : Backend σ) : (q : Query) → Act σ q.Answer
  | .summary seg => b.summary seg
  | .nodeInRange nid => b.nodeInRange nid
  | .nodePage nid => b.nodePage nid
  | .nodeInfo nid => b.nodeInfo nid
  | .placeNode page => b.placeNode page
  | .inode ino => b.inode ino
  | .isLinked inode => b.isLinked inode
  | .dataPage inode index => b.dataPage inode index
  | .placeData inode page => b.placeData inode page
  | .punch inode start stop evict => b.punch inode start stop evict
  | .writeback batch => b.writeback batch
  | .checkpointFailed => b.checkpointFailed
  | .writeCheckpoint => b.writeCheckpoint

/-! ## The recorded filesystem -/

/-- A world with a log of queries beside what the filesystem keeps for itself. -/
def World.recorded (w : World σ) (log : List Exchange) : World (σ × List Exchange) :=
  { w with host := (w.host, log) }

/-- A world without the log of queries. -/
def World.plain (w : World (σ × List Exchange)) : World σ := { w with host := w.host.1 }

namespace Backend

/-- Makes a query and writes it down with its answer. -/
def record (b : Backend σ) (q : Query) : Act (σ × List Exchange) q.Answer := fun w => do
  let (r, w₁) ← b.ask q w.plain
  return (r, w₁.recorded (w.host.2 ++ [⟨q, r⟩]))

/-- A filesystem that writes down what it is asked and what it answers. -/
def recorded (b : Backend σ) : Backend (σ × List Exchange) where
  summary seg := b.record (.summary seg)
  nodeInRange nid := b.record (.nodeInRange nid)
  nodePage nid := b.record (.nodePage nid)
  nodeInfo nid := b.record (.nodeInfo nid)
  placeNode page := b.record (.placeNode page)
  inode ino := b.record (.inode ino)
  isLinked inode := b.record (.isLinked inode)
  dataPage inode index := b.record (.dataPage inode index)
  placeData inode page := b.record (.placeData inode page)
  punch inode start stop evict := b.record (.punch inode start stop evict)
  writeback batch := b.record (.writeback batch)
  checkpointFailed := b.record .checkpointFailed
  writeCheckpoint := b.record .writeCheckpoint

end Backend

/-! ## Transcripts -/

/-- What a pass does: it makes a query, or raises a flag of a page. -/
inductive Deed where
  /-- A query was made and answered. -/
  | call (e : Exchange)
  /-- A flag of a page was raised. -/
  | raise (page : Page) (flag : PageFlag)

/-- The queries of a transcript. -/
def calls (ds : List Deed) : List Exchange :=
  ds.filterMap fun
    | .call e => some e
    | .raise _ _ => none

/-- Queries are made in the first part of a transcript or in the second. -/
theorem calls_append (ds ds' : List Deed) : calls (ds ++ ds') = calls ds ++ calls ds' :=
  List.filterMap_append

/-- What a deed tells of a live block, or that it reads a summary. -/
inductive Finding where
  /-- The summary of a segment was read. -/
  | summary
  /-- The page of the block was marked to be moved. -/
  | moved
  /-- The block of an orphan was released. -/
  | released
  /-- The block of an orphan could not be released. -/
  | unreleased
  /-- The page of the block could not be had. -/
  | pageless
deriving DecidableEq

/-- The finding of a deed, if it is one that tells something. -/
def Deed.finding? : Deed → Option Finding
  | .call ⟨.summary _, r⟩ => if r.isOk then some .summary else none
  | .call ⟨.punch _ _ _ _, r⟩ => if r.isOk then some .released else some .unreleased
  | .call ⟨.dataPage _ _, r⟩ => if r.isOk then none else some .pageless
  | .call _ => none
  | .raise _ flag => if flag = .dirty then some .moved else none

/-- The findings of a transcript, in order. -/
def findings (ds : List Deed) : List Finding := ds.filterMap Deed.finding?

/-- What the first deed tells comes first. -/
theorem findings_cons (d : Deed) (ds : List Deed) :
    findings (d :: ds) = d.finding?.toList ++ findings ds := by
  unfold findings
  cases hd : d.finding? with
  | none => rw [List.filterMap_cons_none hd]; rfl
  | some f => rw [List.filterMap_cons_some hd]; rfl

/-- Something is found in the first part of a transcript or in the second. -/
theorem findings_append (ds ds' : List Deed) : findings (ds ++ ds') = findings ds ++ findings ds' :=
  List.filterMap_append

/-! ## Lookups -/

/-- A transcript of lookups. -/
def OnlyLooks (ds : List Deed) : Prop := ∀ d ∈ ds, ∃ e : Exchange, d = .call e ∧ e.1.IsLookup

/-- Two transcripts of lookups in a row make one. -/
theorem OnlyLooks.append {ds ds' : List Deed} (h : OnlyLooks ds) (h' : OnlyLooks ds') :
    OnlyLooks (ds ++ ds') := by
  intro d hd
  rcases List.mem_append.mp hd with hd | hd
  · exact h d hd
  · exact h' d hd

/-- Nothing has been looked up. -/
@[simp]
theorem onlyLooks_nil : OnlyLooks [] := nofun

/-- One more lookup makes a transcript of lookups. -/
@[simp]
theorem onlyLooks_cons {q : Query} {r : q.Answer} {ds : List Deed} :
    OnlyLooks (.call ⟨q, r⟩ :: ds) ↔ q.IsLookup ∧ OnlyLooks ds := by
  unfold OnlyLooks
  rw [List.forall_mem_cons]
  refine and_congr_left fun _ => ⟨?_, fun hq => ⟨_, rfl, hq⟩⟩
  rintro ⟨e, h, he⟩
  cases h
  exact he

/-- How the owner of a data block is looked for. -/
inductive OwnerSearch (addr : Address) (entry : Summary) : List Deed → Option Owner → Prop
  /-- The entry is stale. -/
  | lost {ds : List Deed} (lookups : OnlyLooks ds) : OwnerSearch addr entry ds none
  /-- The slot of the node that the entry names points at the address. -/
  | found {node : NodePage} {info : NodeInfo} {inode : Inode}
      (pointer : node.pointer entry.slot = addr) :
      OwnerSearch addr entry
        [.call ⟨.nodeInRange entry.nid, true⟩, .call ⟨.nodePage entry.nid, .ok node⟩,
          .call ⟨.nodeInfo entry.nid, .ok info⟩, .call ⟨.inode info.ino, .ok inode⟩]
        (some ⟨inode, node.first + entry.slot, info⟩)

/-- The search for an owner only looks. -/
theorem OwnerSearch.onlyLooks {addr : Address} {entry : Summary} {ds : List Deed}
    {r : Option Owner} (h : OwnerSearch addr entry ds r) : OnlyLooks ds := by
  cases h with
  | lost lookups => exact lookups
  | found _ => simp [Query.IsLookup]

/-! ## Ways of a pass -/

namespace Backend

/-- A pass has gone from one world to another by the deeds of a transcript, all of them allowed.
What it counts on the way is not written down. -/
inductive Goes (b : Backend σ) (trigger : Trigger) : World σ → List Deed → World σ → Prop
  /-- Nothing is done. -/
  | refl (w : World σ) : Goes b trigger w [] w
  /-- A query is made, and more is done from there. -/
  | call {w w₁ w' : World σ} {q : Query} {r : q.Answer} {ds : List Deed}
      (allowed : q.Allowed trigger) (run : b.ask q w = .ok (r, w₁))
      (rest : Goes b trigger w₁ ds w') :
      Goes b trigger w (.call ⟨q, r⟩ :: ds) w'
  /-- A flag is raised, and more is done from there; pages go under writeback in the foreground
  only. -/
  | raise {w w' : World σ} {page : Page} {flag : PageFlag} {ds : List Deed}
      (allowed : flag = .writeback → trigger = .foreground)
      (rest : Goes b trigger { w with pages := (w.pages.mark page flag true).2 } ds w') :
      Goes b trigger w (.raise page flag :: ds) w'
  /-- An event is counted, and more is done from there. -/
  | count {w w' : World σ} {ds : List Deed} (f : Tally → Tally)
      (rest : Goes b trigger
        { w with collector := { w.collector with tally := f w.collector.tally } } ds w') :
      Goes b trigger w ds w'

variable {b : Backend σ} {trigger : Trigger} {w w₁ w' : World σ} {ds ds' : List Deed}

/-- Two transcripts in a row make one. -/
theorem Goes.trans (h : b.Goes trigger w ds w₁) (h' : b.Goes trigger w₁ ds' w') :
    b.Goes trigger w (ds ++ ds') w' := by
  induction h with
  | refl w => exact h'
  | call allowed run _ ih => exact .call allowed run (ih h')
  | raise allowed _ ih => exact .raise allowed (ih h')
  | count f _ ih => exact .count f (ih h')

/-- All queries of a transcript are allowed. -/
theorem Goes.allowed (h : b.Goes trigger w ds w') : ∀ e ∈ calls ds, e.1.Allowed trigger := by
  induction h with
  | refl w => exact List.forall_mem_nil _
  | call allowed _ _ ih => exact List.forall_mem_cons.mpr ⟨allowed, ih⟩
  | raise _ _ ih => exact ih
  | count _ _ ih => exact ih

/-- An invariant that the steps of a transcript keep. -/
theorem Goes.keeps {I : World σ → Prop} (hI : Act.Lasting I) (h : b.Goes trigger w ds w')
    (hask : ∀ q r w₁ w₂, q.Allowed trigger → (⟨q, r⟩ : Exchange) ∈ calls ds → I w₁ →
      b.ask q w₁ = .ok (r, w₂) → I w₂) (hw : I w) : I w' := by
  induction h with
  | refl w => exact hw
  | call allowed run _ ih =>
    refine ih (fun q r w₁ w₂ hq hmem => hask q r w₁ w₂ hq ?_) (hask _ _ _ _ allowed ?_ hw run)
    · exact List.mem_cons_of_mem _ hmem
    · exact List.mem_cons_self
  | @raise w _ _ _ _ _ _ ih => exact ih hask (hI w _ rfl rfl hw)
  | @count w _ _ _ _ ih => exact ih hask (hI w _ rfl rfl hw)

/-- How a pass stops without an answer: a query that it made was not answered, it looked a segment
up that the table does not have or whose first block has no address, or a block that it visited lies
too far back in its file. -/
inductive Stops (b : Backend σ) (trigger : Trigger) (segs : List ℕ) (blocks : Address → Prop)
    (w : World σ) (t : Trap) : Prop
  /-- A query was not answered. -/
  | call {ds : List Deed} {w₁ : World σ} {q : Query} (went : b.Goes trigger w ds w₁)
      (allowed : q.Allowed trigger) (trap : b.ask q w₁ = .error t)
  /-- A segment is not in the table. -/
  | table {ds : List Deed} {w₁ : World σ} {seg : ℕ} (went : b.Goes trigger w ds w₁)
      (listed : seg ∈ segs) (trap : w₁.area.table.get seg = .error t)
  /-- The number of the first block of a segment does not fit 32 bits. -/
  | start {ds : List Deed} {w₁ : World σ} {seg : ℕ} (went : b.Goes trigger w ds w₁)
      (listed : seg ∈ segs) (trap : w₁.area.geometry.checkedStart seg = .error t)
  /-- The index of a block in its file does not fit 64 bits. -/
  | index {ds ds' : List Deed} {w₁ w₂ : World σ} {addr : Address} {entry : Summary} {owner : Owner}
      (went : b.Goes trigger w ds w₁) (visited : blocks addr) (looked : b.Goes trigger w₁ ds' w₂)
      (search : OwnerSearch addr entry ds' (some owner)) (wide : 2 ^ 64 ≤ owner.index)
      (trap : t = .width)
  /-- The index behind a block of an orphan does not. -/
  | behind {ds ds' : List Deed} {w₁ w₂ : World σ} {addr : Address} {entry : Summary} {owner : Owner}
      (went : b.Goes trigger w ds w₁) (visited : blocks addr)
      (looked : b.Goes trigger w₁ (ds' ++ [.call ⟨.isLinked owner.inode, false⟩]) w₂)
      (search : OwnerSearch addr entry ds' (some owner)) (wide : 2 ^ 64 ≤ owner.index + 1)
      (trap : t = .width)

/-- A walk over a segment that begins in a world comes to a block: it is found live on the way. -/
def Meets (b : Backend σ) (trigger : Trigger) (seg : ℕ) (w : World σ) (addr : Address) : Prop :=
  ∃ ds w₁ off, b.Goes trigger w ds w₁ ∧ w₁.area.isLive seg off = .ok true ∧
    addr = w.area.geometry.startBlock seg + off

/-- A pass over segments that begins in a world comes to a block: a walk over one of them does that
begins on the way. -/
def Ranges (b : Backend σ) (trigger : Trigger) (segs : List ℕ) (w : World σ) (addr : Address) :
    Prop :=
  ∃ seg ∈ segs, ∃ ds w₁, b.Goes trigger w ds w₁ ∧ b.Meets trigger seg w₁ addr

variable {segs : List ℕ} {blocks : Address → Prop} {t : Trap} {addr : Address}

/-- What a pass comes to later on it comes to. -/
theorem Ranges.after (went : b.Goes trigger w ds w₁) (h : b.Ranges trigger segs w₁ addr) :
    b.Ranges trigger segs w addr := by
  obtain ⟨seg, hseg, ds', w₂, went', hmeets⟩ := h
  exact ⟨seg, hseg, ds ++ ds', w₂, went.trans went', hmeets⟩

/-- What a pass over some segments comes to, one over more of them comes to. -/
theorem Ranges.mono {segs' : List ℕ} (hsegs : ∀ seg ∈ segs, seg ∈ segs')
    (h : b.Ranges trigger segs w addr) : b.Ranges trigger segs' w addr := by
  obtain ⟨seg, hseg, hmeets⟩ := h
  exact ⟨seg, hsegs seg hseg, hmeets⟩

/-- A pass that stops later on stops. -/
theorem Stops.after (went : b.Goes trigger w ds w₁) (h : b.Stops trigger segs blocks w₁ t) :
    b.Stops trigger segs blocks w t := by
  cases h with
  | call went' allowed trap => exact .call (went.trans went') allowed trap
  | table went' listed trap => exact .table (went.trans went') listed trap
  | start went' listed trap => exact .start (went.trans went') listed trap
  | index went' visited looked search wide trap =>
    exact .index (went.trans went') visited looked search wide trap
  | behind went' visited looked search wide trap =>
    exact .behind (went.trans went') visited looked search wide trap

end Backend

/-! ## The counters -/

namespace Backend

variable {b : Backend σ} {t : Tally} {w w₁ : World σ}

/-- Whether a filesystem leaves the counters of collection alone: none of its operations makes a
pass of its own. -/
def LeavesTally (b : Backend σ) : Prop :=
  ∀ q w r w', b.ask q w = .ok (r, w') → w'.collector.tally = w.collector.tally

/-- Where the counters stand, if the filesystem leaves them alone. -/
def Stands (b : Backend σ) (t : Tally) (w : World σ) : Prop := b.LeavesTally → w.collector.tally = t

/-- A query leaves the counters where they stand. -/
theorem Stands.ask {q : Query} {r : q.Answer} (h : b.Stands t w) (run : b.ask q w = .ok (r, w₁)) :
    b.Stands t w₁ := fun hb => (hb q w r w₁ run).trans (h hb)

/-- Counting an event moves the counters. -/
theorem Stands.count {g : Tally → Tally} (h : b.Stands t w)
    (hcount : w₁.collector.tally = g w.collector.tally) : b.Stands (g t) w₁ := by
  intro hb
  rw [hcount, h hb]

end Backend

/-! ## What an operation does -/

namespace Area

variable {a : Area} {seg : ℕ} {t : Trap}

/-- Asking whether a block is live stops only at a segment that the table does not have. -/
theorem get_of_isLive {off : ℕ} (h : a.isLive seg off = .error t) : a.table.get seg = .error t := by
  unfold isLive at h
  cases hget : a.table.get seg with
  | error t' =>
    rw [hget] at h
    cases h
    rfl
  | ok s =>
    rw [hget] at h
    cases h

/-- Asking for the live blocks of a segment stops only if the table does not have it. -/
theorem get_of_liveBlocks (h : a.liveBlocks seg false = .error t) :
    a.table.get seg = .error t := by
  unfold liveBlocks SegmentTable.liveBlocks at h
  rw [if_neg Bool.false_ne_true] at h
  cases hget : a.table.get seg with
  | error t' =>
    rw [hget] at h
    cases h
    rfl
  | ok s =>
    rw [hget] at h
    cases h

end Area

namespace Act

/-- The run of an operation from a world, with a condition on the transcript, the answer and the
world afterwards. Beside it the operation is run with the recorded filesystem, whose log grows by
the queries of the transcript. -/
inductive Does (b : Backend σ) (trigger : Trigger) (segs : List ℕ) (blocks : Address → Prop)
    (m' : Act (σ × List Exchange) α) (m : Act σ α) (w : World σ)
    (P : List Deed → α → World σ → Prop) : Prop
  /-- The operation gives an answer. -/
  | gives {ds : List Deed} {r : α} {w' : World σ} (run : m w = .ok (r, w'))
      (noted : ∀ log, m' (w.recorded log) = .ok (r, w'.recorded (log ++ calls ds)))
      (went : b.Goes trigger w ds w') (after : P ds r w')
  /-- The operation stops. -/
  | stops {t : Trap} (run : m w = .error t) (stuck : b.Stops trigger segs blocks w t)

variable {b : Backend σ} {trigger : Trigger} {segs : List ℕ} {blocks : Address → Prop}
  {m' : Act (σ × List Exchange) α} {m : Act σ α} {f' : α → Act (σ × List Exchange) β}
  {f : α → Act σ β} {w : World σ} {P : List Deed → α → World σ → Prop}
  {Q : List Deed → β → World σ → Prop}

/-- The condition can be made weaker. -/
theorem Does.mono {P' : List Deed → α → World σ → Prop} (h : Does b trigger segs blocks m' m w P)
    (himp : ∀ ds r w', b.Goes trigger w ds w' → P ds r w' → P' ds r w') :
    Does b trigger segs blocks m' m w P' := by
  cases h with
  | gives run noted went after => exact .gives run noted went (himp _ _ _ went after)
  | stops run stuck => exact .stops run stuck

/-- A returned value does nothing. -/
theorem does_pure {x : α} (h : P [] x w) : Does b trigger segs blocks (pure x) (pure x) w P :=
  .gives rfl (fun log => by rw [calls, List.filterMap_nil, List.append_nil]; rfl) (.refl w) h

/-- Two operations do what they do one after the other, unless the second stops for what the first
has come to. -/
theorem Does.bind_or (hm : Does b trigger segs blocks m' m w P)
    (hf : ∀ ds x w₁, b.Goes trigger w ds w₁ → P ds x w₁ →
      (∃ t, f x w₁ = .error t ∧ b.Stops trigger segs blocks w t) ∨
      Does b trigger segs blocks (f' x) (f x) w₁ fun ds' => Q (ds ++ ds')) :
    Does b trigger segs blocks (m' >>= f') (m >>= f) w Q := by
  cases hm with
  | stops run stuck => exact .stops (bind_of_error run f) stuck
  | @gives ds x w₁ run noted went after =>
    have hrun : (m >>= f) w = f x w₁ := bind_of_ok run f
    rcases hf ds x w₁ went after with ⟨t, run₁, stuck⟩ | hdoes
    · exact .stops (hrun.trans run₁) stuck
    cases hdoes with
    | stops run₁ stuck => exact .stops (hrun.trans run₁) (stuck.after went)
    | @gives ds₁ r w' run₁ noted₁ went₁ after₁ =>
      refine .gives (hrun.trans run₁) (fun log => ?_) (went.trans went₁) after₁
      rw [bind_of_ok (noted log) f', noted₁, calls_append, List.append_assoc]

/-- Two operations do what they do one after the other. -/
theorem Does.bind (hm : Does b trigger segs blocks m' m w P)
    (hf : ∀ ds x w₁, b.Goes trigger w ds w₁ → P ds x w₁ →
      Does b trigger segs blocks (f' x) (f x) w₁ fun ds' => Q (ds ++ ds')) :
    Does b trigger segs blocks (m' >>= f') (m >>= f) w Q :=
  hm.bind_or fun ds x w₁ went after => Or.inr (hf ds x w₁ went after)

/-- A query is made. -/
theorem does_ask {q : Query} {P : List Deed → q.Answer → World σ → Prop} (hq : q.Allowed trigger)
    (h : ∀ r w₁, b.ask q w = .ok (r, w₁) → P [.call ⟨q, r⟩] r w₁) :
    Does b trigger segs blocks (b.record q) (b.ask q) w P := by
  cases hrun : b.ask q w with
  | error t => exact .stops hrun (.call (.refl w) hq hrun)
  | ok x =>
    obtain ⟨r, w₁⟩ := x
    refine .gives hrun (fun log => ?_) (.call hq hrun (.refl w₁)) (h r w₁ hrun)
    show (b.ask q w >>= fun p => .ok (p.1, p.2.recorded (log ++ [⟨q, p.1⟩]))) = _
    rw [hrun, Guarded.ok_bind]
    rfl

/-- A query is made first. -/
theorem does_ask_bind (q : Query) {f' : q.Answer → Act (σ × List Exchange) β}
    {f : q.Answer → Act σ β} (hq : q.Allowed trigger)
    (hf : ∀ r w₁, b.ask q w = .ok (r, w₁) →
      Does b trigger segs blocks (f' r) (f r) w₁ fun ds => Q (.call ⟨q, r⟩ :: ds)) :
    Does b trigger segs blocks (b.record q >>= f') (b.ask q >>= f) w Q := by
  refine (does_ask (P := fun ds r w₁ => ds = [.call ⟨q, r⟩] ∧ b.ask q w = .ok (r, w₁)) hq
    fun r w₁ hrun => ⟨rfl, hrun⟩).bind ?_
  rintro _ r w₁ - ⟨rfl, hrun⟩
  exact hf r w₁ hrun

/-- A flag of a page is raised first. -/
theorem does_raise_bind {page : Page} {flag : PageFlag} {f' : Bool → Act (σ × List Exchange) β}
    {f : Bool → Act σ β} (hflag : flag = .writeback → trigger = .foreground)
    (hf : ∀ before, Does b trigger segs blocks (f' before) (f before)
      { w with pages := (w.pages.mark page flag true).2 } fun ds => Q (.raise page flag :: ds)) :
    Does b trigger segs blocks (mark page flag true >>= f') (mark page flag true >>= f) w Q := by
  cases hf (w.pages.mark page flag true).1 with
  | @gives ds r w' run noted went after =>
    -- The flag is no query, so the log grows by the same ones.
    refine .gives run ?_ (.raise hflag went) after
    exact noted
  | stops run stuck => exact .stops run (stuck.after (.raise hflag (.refl _)))

/-- An event is counted. -/
theorem does_count {g : Tally → Tally} {P : List Deed → Unit → World σ → Prop}
    (h : ∀ w₁ : World σ, w₁.area = w.area → w₁.host = w.host →
      w₁.collector.tally = g w.collector.tally → P [] () w₁) :
    Does b trigger segs blocks (count g) (count g) w P :=
  .gives rfl (fun log => by rw [calls, List.filterMap_nil, List.append_nil]; rfl)
    (.count g (.refl _)) (h _ rfl rfl rfl)

/-- An event is counted first. -/
theorem does_count_bind {g : Tally → Tally} {f' : Unit → Act (σ × List Exchange) β}
    {f : Unit → Act σ β} (hf : ∀ w₁ : World σ, b.Goes trigger w [] w₁ → w₁.area = w.area →
      w₁.host = w.host → w₁.collector.tally = g w.collector.tally →
      Does b trigger segs blocks (f' ()) (f ()) w₁ Q) :
    Does b trigger segs blocks (count g >>= f') (count g >>= f) w Q := by
  refine (does_count (P := fun ds _ w₁ => ds = [] ∧ w₁.area = w.area ∧ w₁.host = w.host ∧
    w₁.collector.tally = g w.collector.tally)
    fun w₁ harea hhost htally => ⟨rfl, harea, hhost, htally⟩).bind ?_
  rintro _ _ w₁ went ⟨rfl, harea, hhost, htally⟩
  exact hf w₁ went harea hhost htally

/-- The area is read first. -/
theorem does_readArea_bind {g : Area → α}
    (hf : Does b trigger segs blocks (f' (g w.area)) (f (g w.area)) w Q) :
    Does b trigger segs blocks (readArea g >>= f') (readArea g >>= f) w Q := by
  cases hf with
  | gives run noted went after => exact .gives run noted went after
  | stops run stuck => exact .stops run stuck

/-- A check is passed first. -/
theorem does_check_bind {x : Guarded α} {r : α} (hx : x = .ok r)
    (hf : Does b trigger segs blocks (f' r) (f r) w Q) :
    Does b trigger segs blocks (check x >>= f') (check x >>= f) w Q := by
  subst hx
  cases hf with
  | gives run noted went after => exact .gives run noted went after
  | stops run stuck => exact .stops run stuck

/-- The area is asked first. -/
theorem does_askArea_bind {g : Area → Guarded α}
    (hstuck : ∀ t, g w.area = .error t → b.Stops trigger segs blocks w t)
    (hf : ∀ x, g w.area = .ok x → Does b trigger segs blocks (f' x) (f x) w Q) :
    Does b trigger segs blocks (askArea g >>= f') (askArea g >>= f) w Q := by
  cases hx : g w.area with
  | error t =>
    refine .stops (bind_of_error ?_ f) (hstuck t hx)
    unfold askArea
    rw [hx, Guarded.error_bind]
  | ok x =>
    have hplain : (askArea g >>= f) w = f x w := bind_of_ok (askArea_eq_ok.mpr ⟨hx, rfl⟩) f
    cases hf x hx with
    | gives run noted went after =>
      refine .gives (hplain.trans run) (fun log => ?_) went after
      have hasked : askArea g (w.recorded log) = .ok (x, w.recorded log) :=
        askArea_eq_ok.mpr ⟨hx, rfl⟩
      rw [bind_of_ok hasked f', noted]
    | stops run stuck => exact .stops (hplain.trans run) stuck

end Act

end Reclaim
