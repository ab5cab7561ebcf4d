import Reclaim.Proofs.Migration.Transcript

/-!
# What a walk sees

The transcript of a walk over a segment is put together from those of its visits. `NodeVisit` and
`DataVisit` list the ways in which a live block is dealt with, each with its deeds in their order
and with what becomes of the block. `Walks` follows the walk itself: it lists the live blocks that
are visited (`Sight`), each with the world in which it was found, and says why the walk ended. At
the end comes the handover of the pages that were placed (`HandsOver`). Beside the deeds the rules
carry where the counters stand: each visit moves them once, by what it finds (`Tells`), and a walk
by its visits and its handover (`Reckons`).

`reckons_collectLive` states all of this of a call that moves the live blocks of a segment, be it
one of nodes or one of data, and `does_collectLive` leaves the counters out.
-/

namespace Reclaim

open Act

variable {σ : Type}

/-! ## Visits -/

/-- What is done with a page once it is dirty: in the background nothing, and in the foreground it
is placed and then put under writeback. -/
inductive Settling (trigger : Trigger) (page : Page) (placing : Outcome Address → Exchange) :
    List Deed → Visit → Prop
  /-- The page is left to regular writing. -/
  | left (h : trigger = .background) : Settling trigger page placing [] .passed
  /-- The page has a new block. -/
  | placed (h : trigger = .foreground) (new : Address) :
      Settling trigger page placing [.call (placing (.ok new)), .raise page .writeback]
        (.placed page)
  /-- The page got no block. -/
  | refused (h : trigger = .foreground) (status : Status) :
      Settling trigger page placing [.call (placing (.error status))] (.failed status)

/-- How a live block is dealt with as that of a node. -/
inductive NodeVisit (trigger : Trigger) (addr : Address) (entry : Summary) :
    List Deed → Visit → Prop
  /-- The entry is stale. -/
  | stale {ds : List Deed} (lookups : OnlyLooks ds) : NodeVisit trigger addr entry ds .passed
  /-- The node is found at the address, and its page is marked and settled. -/
  | moved {node : NodePage} {info : NodeInfo} {ds : List Deed} {v : Visit}
      (address : info.address = addr)
      (settling : Settling trigger node.page (fun r => ⟨.placeNode node.page, r⟩) ds v) :
      NodeVisit trigger addr entry
        (.call ⟨.nodeInRange entry.nid, true⟩ :: .call ⟨.nodePage entry.nid, .ok node⟩ ::
          .call ⟨.nodeInfo entry.nid, .ok info⟩ :: .raise node.page .dirty :: ds) v

/-- How a live block is dealt with as that of a file. -/
inductive DataVisit (trigger : Trigger) (addr : Address) (entry : Summary) :
    List Deed → Visit → Prop
  /-- The entry is stale, or the page cannot be had. -/
  | stale {ds : List Deed} (lookups : OnlyLooks ds) : DataVisit trigger addr entry ds .passed
  /-- The owner is an orphan, and the block is released. -/
  | released {ds : List Deed} {owner : Owner} (search : OwnerSearch addr entry ds (some owner))
      (answer : Outcome Unit) :
      DataVisit trigger addr entry
        (ds ++ [.call ⟨.isLinked owner.inode, false⟩,
          .call ⟨.punch owner.inode owner.index (owner.index + 1) true, answer⟩]) .passed
  /-- The owner is linked, and the page of the block is marked and settled. -/
  | moved {ds ds' : List Deed} {owner : Owner} {page : Page} {v : Visit}
      (search : OwnerSearch addr entry ds (some owner))
      (settling : Settling trigger page (fun r => ⟨.placeData owner.inode page, r⟩) ds' v) :
      DataVisit trigger addr entry
        (ds ++ .call ⟨.isLinked owner.inode, true⟩ ::
          .call ⟨.dataPage owner.inode owner.index, .ok page⟩ ::
          .raise page .dirty :: .raise page .cold :: ds') v

/-- How a live block is dealt with in a segment of a kind. -/
def BlockKind.Visits (kind : BlockKind) (trigger : Trigger) (addr : Address) (entry : Summary) :
    List Deed → Visit → Prop :=
  match kind with
  | .node => NodeVisit trigger addr entry
  | .data => DataVisit trigger addr entry

/-- What a visit of a block of a kind may find: one thing at most, and nothing if the entry is
stale. -/
def BlockKind.mayFind : BlockKind → List (List Finding)
  | .node => [[], [.moved]]
  | .data => [[], [.moved], [.released], [.unreleased], [.pageless]]

namespace Tally

/-- Counts a finding about a block of a kind. Failures have no counter. -/
def countFinding (kind : BlockKind) (t : Tally) : Finding → Tally
  | .summary => t.countScanned
  | .moved =>
    match kind with
    | .node => t.countNode
    | .data => t.countData
  | .released => t.countOrphan
  | .unreleased | .pageless => t

/-- Counts a visit by what it finds; one that finds nothing is that of a stale entry. -/
def countVisit (kind : BlockKind) (t : Tally) : List Finding → Tally
  | [] => t.countStale
  | f :: _ => t.countFinding kind f

end Tally

/-- What a visit of a block of a kind does to counters that stood at `t` before. -/
structure Backend.Tells (b : Backend σ) (kind : BlockKind) (t : Tally) (ds : List Deed)
    (w : World σ) : Prop where
  /-- One thing is found at most. -/
  finds : findings ds ∈ kind.mayFind
  /-- What is found is counted. -/
  stands : b.Stands (t.countVisit kind (findings ds)) w

namespace Backend

variable {b : Backend σ} {trigger : Trigger} {segs : List ℕ} {blocks : Address → Prop} {t : Tally}

/-- A visit that finds nothing is counted as that of a stale entry. -/
theorem Tells.stale {kind : BlockKind} {ds : List Deed} {w : World σ} (hds : findings ds = [])
    (h : b.Stands t.countStale w) : b.Tells kind t ds w where
  finds := by
    rw [hds]
    cases kind <;> decide
  stands := by
    rw [hds]
    exact h

/-- A visit that finds something is counted by it. -/
theorem Tells.found {kind : BlockKind} {ds : List Deed} {f : Finding} {w : World σ}
    (hds : findings ds = [f]) (hf : [f] ∈ kind.mayFind) (h : b.Stands (t.countFinding kind f) w) :
    b.Tells kind t ds w where
  finds := by
    rw [hds]
    exact hf
  stands := by
    rw [hds]
    exact h

/-- A stale entry is counted and passed over without a further deed. -/
theorem does_passStale {w : World σ} {P : List Deed → Visit → World σ → Prop} (hw : b.Stands t w)
    (h : ∀ w₁, b.Stands t.countStale w₁ → P [] .passed w₁) :
    Does b trigger segs blocks passStale passStale w P :=
  does_count_bind fun w₁ _ _ _ htally => does_pure (h w₁ (hw.count htally))

/-- Settling a page whose placing is one query; nothing is counted, nor does it tell anything of the
block. -/
theorem does_settle {place' : Page → Act (σ × List Exchange) (Outcome Address)}
    {place : Page → Act σ (Outcome Address)} {page : Page} {placing : Outcome Address → Exchange}
    (hplacing : ∀ r, Deed.finding? (.call (placing r)) = none)
    (hplace : trigger = .foreground → ∀ w, b.Stands t w →
      Does b trigger segs blocks (place' page) (place page) w
        fun ds r w' => ds = [.call (placing r)] ∧ b.Stands t w') {w : World σ}
    (hw : b.Stands t w) :
    Does b trigger segs blocks (settle place' trigger page) (settle place trigger page) w
      fun ds v w' => Settling trigger page placing ds v ∧ findings ds = [] ∧ b.Stands t w' := by
  cases trigger with
  | background => exact does_pure ⟨.left rfl, rfl, hw⟩
  | foreground =>
    refine (hplace rfl w hw).bind ?_
    rintro _ r w₁ - ⟨rfl, hw₁⟩
    cases r with
    | error status =>
      refine does_pure ⟨.refused rfl status, ?_, hw₁⟩
      rw [findings_append, findings_cons, hplacing]
      rfl
    | ok new =>
      refine does_raise_bind (fun _ => rfl) fun _ => does_pure ⟨.placed rfl new, ?_, hw₁⟩
      rw [findings_append, findings_cons, hplacing]
      rfl

/-- The visit of a block as that of a node. -/
theorem does_visitNode (addr : Address) (entry : Summary) {w : World σ} (hw : b.Stands t w) :
    Does b trigger segs blocks (b.recorded.visitNode trigger addr entry)
      (b.visitNode trigger addr entry) w
      fun ds v w' => NodeVisit trigger addr entry ds v ∧ b.Tells .node t ds w' := by
  unfold visitNode
  refine does_ask_bind (.nodeInRange entry.nid) trivial fun inRange w₁ hrun => ?_
  have hw₁ := hw.ask hrun
  split_ifs with hinRange
  · subst hinRange
    refine does_ask_bind (.nodePage entry.nid) trivial fun page w₂ hrun => ?_
    have hw₂ := hw₁.ask hrun
    cases page with
    | error status =>
      exact does_passStale hw₂ fun _ h => ⟨.stale (by simp [Query.IsLookup]), .stale rfl h⟩
    | ok node =>
      refine does_ask_bind (.nodeInfo entry.nid) trivial fun info w₃ hrun => ?_
      have hw₃ := hw₂.ask hrun
      cases info with
      | error status =>
        exact does_passStale hw₃ fun _ h => ⟨.stale (by simp [Query.IsLookup]), .stale rfl h⟩
      | ok info =>
        dsimp only
        split_ifs with haddr
        · -- The page is marked and counted before it is settled, be it refused a block or not.
          have hdirty : PageFlag.dirty ≠ .writeback := by decide
          refine does_raise_bind (absurd · hdirty) fun _ =>
            does_count_bind fun w₄ _ _ _ htally => ?_
          have hw₄ : b.Stands t.countNode w₄ := Stands.count hw₃ htally
          have hplacing : ∀ r, Deed.finding? (.call ⟨.placeNode node.page, r⟩) = none :=
            fun _ => rfl
          refine (does_settle hplacing (fun hfore w hw => ?_) hw₄).mono ?_
          · exact does_ask (q := .placeNode node.page) hfore fun _ _ hrun => ⟨rfl, hw.ask hrun⟩
          · rintro ds v w' - ⟨hsettling, hnothing, hw'⟩
            refine ⟨.moved haddr hsettling, .found (f := .moved) ?_ (by decide) hw'⟩
            simp only [findings_cons, hnothing]
            rfl
        · exact does_passStale hw₃ fun _ h => ⟨.stale (by simp [Query.IsLookup]), .stale rfl h⟩
  · exact does_passStale hw₁ fun _ h => ⟨.stale (by simp [Query.IsLookup]), .stale rfl h⟩

/-- The search for the node that points at a block finds nothing that is counted. -/
theorem does_claimant? (addr : Address) (entry : Summary) {w : World σ} (hw : b.Stands t w) :
    Does b trigger segs blocks (b.recorded.claimant? entry addr) (b.claimant? entry addr) w
      fun ds r w' => OwnerSearch addr entry ds
        (r.map fun c => ⟨c.1, c.2.1.first + entry.slot, c.2.2⟩) ∧
          findings ds = [] ∧ b.Stands t w' := by
  unfold claimant?
  refine does_ask_bind (.nodeInRange entry.nid) trivial fun inRange w₁ hrun => ?_
  have hw₁ := hw.ask hrun
  split_ifs with hinRange
  · subst hinRange
    refine does_ask_bind (.nodePage entry.nid) trivial fun page w₂ hrun => ?_
    have hw₂ := hw₁.ask hrun
    cases page with
    | error status => exact does_pure ⟨.lost (by simp [Query.IsLookup]), rfl, hw₂⟩
    | ok node =>
      refine does_ask_bind (.nodeInfo entry.nid) trivial fun info w₃ hrun => ?_
      have hw₃ := hw₂.ask hrun
      cases info with
      | error status => exact does_pure ⟨.lost (by simp [Query.IsLookup]), rfl, hw₃⟩
      | ok info =>
        dsimp only
        split_ifs with hversion hpointer
        · refine does_ask_bind (.inode info.ino) trivial fun inode w₄ hrun => ?_
          have hw₄ := hw₃.ask hrun
          cases inode with
          | error status => exact does_pure ⟨.lost (by simp [Query.IsLookup]), rfl, hw₄⟩
          | ok inode => exact does_pure ⟨.found hpointer, rfl, hw₄⟩
        · refine does_ask_bind (.inode info.ino) trivial fun inode w₄ hrun => ?_
          have hw₄ := hw₃.ask hrun
          cases inode <;> exact does_pure ⟨.lost (by simp [Query.IsLookup]), rfl, hw₄⟩
        · exact does_pure ⟨.lost (by simp [Query.IsLookup]), rfl, hw₃⟩
  · exact does_pure ⟨.lost (by simp [Query.IsLookup]), rfl, hw₁⟩

/-- The search for the owner of a block that is visited finds nothing that is counted. -/
theorem does_owner? {addr : Address} (hblock : blocks addr) (entry : Summary) {w : World σ}
    (hw : b.Stands t w) :
    Does b trigger segs blocks (b.recorded.owner? entry addr) (b.owner? entry addr) w
      fun ds r w' => OwnerSearch addr entry ds r ∧ findings ds = [] ∧ b.Stands t w' := by
  unfold owner?
  refine (does_claimant? addr entry hw).bind_or fun ds claimant w₁ hwent hsearched => ?_
  cases claimant with
  | none =>
    refine Or.inr (does_pure ?_)
    rwa [List.append_nil]
  | some claimant =>
    obtain ⟨inode, node, info⟩ := claimant
    rcases Nat.lt_or_ge (node.first + entry.slot) (2 ^ 64) with hfits | hwide
    · refine Or.inr (does_check_bind (Guarded.fit64_eq hfits) (does_pure ?_))
      rwa [List.append_nil]
    · exact Or.inl ⟨.width, check_bind_error (Guarded.fit64_eq_error hwide) _ _,
        .index (.refl w) hblock hwent hsearched.1 hwide rfl⟩

/-- The visit of a block as that of a file. -/
theorem does_visitData {addr : Address} (hblock : blocks addr) (entry : Summary) {w : World σ}
    (hw : b.Stands t w) :
    Does b trigger segs blocks (b.recorded.visitData trigger addr entry)
      (b.visitData trigger addr entry) w
      fun ds v w' => DataVisit trigger addr entry ds v ∧ b.Tells .data t ds w' := by
  unfold visitData
  refine (does_owner? hblock entry hw).bind_or fun ds owner w₁ hwent hsearched => ?_
  obtain ⟨hsearch, hnothing, hw₁⟩ := hsearched
  cases owner with
  | none =>
    refine Or.inr (does_passStale hw₁ fun _ h => ?_)
    rw [List.append_nil]
    exact ⟨.stale hsearch.onlyLooks, .stale hnothing h⟩
  | some owner =>
    have hfound : ∀ {ds' : List Deed} {f : Finding}, findings ds' = [f] →
        findings (ds ++ ds') = [f] := by
      intro ds' f hf
      rw [findings_append, hnothing, hf, List.nil_append]
    -- An orphan whose last block lies at the last index cannot be released.
    by_cases hstuck : 2 ^ 64 ≤ owner.index + 1 ∧
        ∃ w₂, b.ask (.isLinked owner.inode) w₁ = .ok (false, w₂)
    · obtain ⟨hwide, w₂, hrun⟩ := hstuck
      have hwent' := hwent.trans (.call (q := .isLinked owner.inode) trivial hrun (.refl w₂))
      refine Or.inl ⟨.width, (bind_of_ok hrun _).trans ?_,
        .behind (.refl w) hblock hwent' hsearch hwide rfl⟩
      exact check_bind_error (Guarded.fit64_eq_error hwide) _ _
    refine Or.inr (does_ask_bind (.isLinked owner.inode) trivial fun linked w₂ hrun => ?_)
    have hw₂ := hw₁.ask hrun
    split_ifs with hlinked
    · subst hlinked
      refine does_ask_bind (.dataPage owner.inode owner.index) trivial fun page w₃ hrun => ?_
      have hw₃ := hw₂.ask hrun
      cases page with
      | error status =>
        exact does_pure ⟨.stale (hsearch.onlyLooks.append (by simp [Query.IsLookup])),
          .found (f := .pageless) (hfound rfl) (by decide) hw₃⟩
      | ok page =>
        have hdirty : PageFlag.dirty ≠ .writeback := by decide
        have hcold : PageFlag.cold ≠ .writeback := by decide
        refine does_raise_bind (absurd · hdirty) fun _ => does_raise_bind (absurd · hcold) fun _ =>
          does_count_bind fun w₄ _ _ _ htally => ?_
        have hw₄ : b.Stands t.countData w₄ := Stands.count hw₃ htally
        have hplacing : ∀ r, Deed.finding? (.call ⟨.placeData owner.inode page, r⟩) = none :=
          fun _ => rfl
        refine (does_settle hplacing (fun hfore w hw => ?_) hw₄).mono ?_
        · exact does_ask (q := .placeData owner.inode page) hfore
            fun _ _ hrun => ⟨rfl, hw.ask hrun⟩
        · rintro ds' v w' - ⟨hsettling, hnone, hw'⟩
          refine ⟨.moved hsearch hsettling, .found (f := .moved) (hfound ?_) (by decide) hw'⟩
          simp only [findings_cons, hnone]
          rfl
    · obtain rfl := Bool.eq_false_of_not_eq_true hlinked
      have hfits : owner.index + 1 < 2 ^ 64 :=
        Nat.lt_of_not_le fun hwide => hstuck ⟨hwide, w₂, hrun⟩
      refine does_check_bind (Guarded.fit64_eq hfits) ?_
      refine does_ask_bind (.punch owner.inode owner.index (owner.index + 1) true) ⟨rfl, rfl⟩
        fun punched w₃ hrun => ?_
      have hw₃ := hw₂.ask hrun
      cases punched with
      | error status =>
        exact does_pure ⟨.released hsearch _,
          .found (f := .unreleased) (hfound rfl) (by decide) hw₃⟩
      | ok _ =>
        exact does_count_bind fun w₄ _ _ _ htally => does_pure ⟨.released hsearch _,
          .found (f := .released) (hfound rfl) (by decide) (hw₃.count htally)⟩

end Backend

/-! ## Walks -/

/-- The page that a visit adds to the batch. -/
def Visit.page? : Visit → Option Page
  | .placed page => some page
  | _ => none

/-- A live block that a walk comes upon. -/
structure Sight (σ : Type) where
  /-- The segment. -/
  seg : ℕ
  /-- The offset of the block in the segment. -/
  off : ℕ
  /-- The summary entry of the block. -/
  entry : Summary
  /-- The world in which the block was found live. -/
  before : World σ
  /-- What was done with the block. -/
  deeds : List Deed
  /-- What became of it. -/
  visit : Visit

/-- What was done at a list of sights. -/
def deedsAt (ss : List (Sight σ)) : List Deed := ss.flatMap Sight.deeds

/-- The pages that were placed at a list of sights. -/
def placedAt (ss : List (Sight σ)) : List Page := ss.filterMap fun s => s.visit.page?

/-- The deeds at the first sight come first. -/
@[simp]
theorem deedsAt_cons (s : Sight σ) (ss : List (Sight σ)) :
    deedsAt (s :: ss) = s.deeds ++ deedsAt ss := rfl

/-- The page placed at the first sight comes first. -/
@[simp]
theorem placedAt_cons (s : Sight σ) (ss : List (Sight σ)) :
    placedAt (s :: ss) = s.visit.page?.toList ++ placedAt ss := by
  unfold placedAt
  cases hpage : s.visit.page? <;> simp [hpage]

/-- A walk from an offset on: the sights, in order, the answer, and the world after the last sight.
-/
inductive Walks (b : Backend σ) (trigger : Trigger)
    (visits : Address → Summary → List Deed → Visit → Prop) (seg : ℕ) (start : Address) :
    ℕ → List Summary → World σ → List (Sight σ) → Outcome Unit → World σ → Prop
  /-- All entries have been walked. -/
  | done (off : ℕ) (w : World σ) : Walks b trigger visits seg start off [] w [] (.ok ()) w
  /-- The walk gives way to allocation. -/
  | yielded {off : ℕ} {entry : Summary} {entries : List Summary} {w : World σ}
      (background : trigger = .background) (short : w.area.isShort 0 0 = true) :
      Walks b trigger visits seg start off (entry :: entries) w [] (.error .badState) w
  /-- A dead block is passed over. -/
  | dead {off : ℕ} {entry : Summary} {entries : List Summary} {w w' : World σ}
      {ss : List (Sight σ)} {r : Outcome Unit}
      (ample : trigger = .background → w.area.isShort 0 0 = false)
      (hdead : w.area.isLive seg off = .ok false)
      (rest : Walks b trigger visits seg start (off + 1) entries w ss r w') :
      Walks b trigger visits seg start off (entry :: entries) w ss r w'
  /-- A live block is visited, and the walk goes on. -/
  | visited {off : ℕ} {entry : Summary} {entries : List Summary} {w w₁ w' : World σ}
      {ds : List Deed} {v : Visit} {ss : List (Sight σ)} {r : Outcome Unit}
      (ample : trigger = .background → w.area.isShort 0 0 = false)
      (live : w.area.isLive seg off = .ok true) (visit : visits (start + off) entry ds v)
      (hv : ∀ status, v ≠ .failed status) (went : b.Goes trigger w ds w₁)
      (rest : Walks b trigger visits seg start (off + 1) entries w₁ ss r w') :
      Walks b trigger visits seg start off (entry :: entries) w
        (⟨seg, off, entry, w, ds, v⟩ :: ss) r w'
  /-- A live block is visited, and the walk ends because its page got no block. -/
  | failed {off : ℕ} {entry : Summary} {entries : List Summary} {w w' : World σ} {ds : List Deed}
      {status : Status} (ample : trigger = .background → w.area.isShort 0 0 = false)
      (live : w.area.isLive seg off = .ok true)
      (visit : visits (start + off) entry ds (.failed status)) (went : b.Goes trigger w ds w') :
      Walks b trigger visits seg start off (entry :: entries) w
        [⟨seg, off, entry, w, ds, .failed status⟩] (.error status) w'

/-- A batch is handed over, unless it is empty. -/
inductive HandsOver : List Page → List Deed → Prop
  /-- There is nothing to hand over. -/
  | nothing : HandsOver [] []
  /-- The pages are handed over together. -/
  | batch {pages : List Page} (h : pages ≠ []) (accepted : ℕ) :
      HandsOver pages [.call ⟨.writeback pages, accepted⟩]

namespace Tally

/-- Counts the visits of a list of sights in blocks of a kind. -/
def countSights (kind : BlockKind) (t : Tally) (ss : List (Sight σ)) : Tally :=
  ss.foldl (fun t s => t.countVisit kind (findings s.deeds)) t

/-- Counts a handover. -/
def countHanded (t : Tally) : List Deed → Tally
  | .call ⟨.writeback _, accepted⟩ :: _ => t.countWriteback accepted
  | _ => t

end Tally

/-- What the sights and the handover of a walk do to counters that stood at `t` before. -/
structure Backend.Reckons (b : Backend σ) (kind : BlockKind) (t : Tally) (ss : List (Sight σ))
    (hs : List Deed) (w : World σ) : Prop where
  /-- One thing is found at most about each of the blocks. -/
  finds : ∀ s ∈ ss, findings s.deeds ∈ kind.mayFind
  /-- Each visit is counted once, and the handover behind them. -/
  stands : b.Stands ((t.countSights kind ss).countHanded hs) w

namespace Backend

variable {b : Backend σ} {trigger : Trigger} {segs : List ℕ} {blocks : Address → Prop} {t : Tally}
  {kind : BlockKind}

/-- A handover without a sight is all that is counted. -/
theorem Reckons.nil {hs : List Deed} {w : World σ} (h : b.Stands (t.countHanded hs) w) :
    b.Reckons kind t [] hs w := ⟨List.forall_mem_nil _, h⟩

/-- The first sight is counted first. -/
theorem Reckons.cons {s : Sight σ} {ss : List (Sight σ)} {hs : List Deed} {w w' : World σ}
    (hs' : b.Tells kind t s.deeds w)
    (h : b.Reckons kind (t.countVisit kind (findings s.deeds)) ss hs w') :
    b.Reckons kind t (s :: ss) hs w' := ⟨List.forall_mem_cons.mpr ⟨hs'.finds, h.finds⟩, h.stands⟩

/-- The handover of a batch. -/
theorem does_flush {batch : List Page} (hbatch : batch ≠ [] → trigger = .foreground)
    {w : World σ} (hw : b.Stands t w) :
    Does b trigger segs blocks (b.recorded.flush batch) (b.flush batch) w
      fun ds _ w' => HandsOver batch ds ∧ b.Stands (t.countHanded ds) w' := by
  unfold flush
  split_ifs with hempty
  · rw [List.isEmpty_iff] at hempty
    subst hempty
    exact does_pure ⟨.nothing, hw⟩
  · rw [List.isEmpty_iff] at hempty
    refine does_ask_bind (.writeback batch) (hbatch hempty) fun accepted w₁ hrun => ?_
    have hw₁ := hw.ask hrun
    exact does_count fun w₂ _ _ htally => ⟨.batch hempty accepted,
      Stands.count (g := fun t => t.countWriteback accepted) hw₁ htally⟩

/-- Wherever a walk ends, the batch is handed over and the answer follows. -/
theorem does_flush_pure {batch : List Page} (hbatch : batch ≠ [] → trigger = .foreground)
    {w : World σ} (hw : b.Stands t w) {r : Outcome Unit}
    {Q : List Deed → Outcome Unit → World σ → Prop}
    (hQ : ∀ hs w', HandsOver batch hs → b.Goes trigger w hs w' → b.Stands (t.countHanded hs) w' →
      Q hs r w') :
    Does b trigger segs blocks (b.recorded.flush batch >>= fun _ => pure r)
      (b.flush batch >>= fun _ => pure r) w Q := by
  refine (does_flush hbatch hw).bind fun hs _ w' hwent hover => does_pure ?_
  rw [List.append_nil]
  exact hQ hs w' hover.1 hwent hover.2

/-- A walk visits live blocks and then hands over what has been placed, the batch before it and that
of the walk itself. It counts each of the visits, and the handover. -/
theorem does_walk {visits : Address → Summary → List Deed → Visit → Prop}
    {visit' : Address → Summary → Act (σ × List Exchange) Visit}
    {visit : Address → Summary → Act σ Visit} {seg : ℕ} {start : Address} (hseg : seg ∈ segs)
    (hvisit : ∀ t addr entry w, blocks addr → b.Stands t w →
      Does b trigger segs blocks (visit' addr entry) (visit addr entry) w
        fun ds v w' => visits addr entry ds v ∧ b.Tells kind t ds w')
    (hfore : ∀ addr entry ds page, visits addr entry ds (.placed page) → trigger = .foreground) :
    ∀ (entries : List Summary) (off : ℕ) (batch : List Page) (t : Tally) (w : World σ),
      (∀ ds w₁ off, b.Goes trigger w ds w₁ → w₁.area.isLive seg off = .ok true →
        blocks (start + off)) → (batch ≠ [] → trigger = .foreground) → b.Stands t w →
      Does b trigger segs blocks (b.recorded.walk visit' trigger seg start entries off batch)
        (b.walk visit trigger seg start entries off batch) w fun ds r w' => ∃ ss w₁ hs,
          Walks b trigger visits seg start off entries w ss r w₁ ∧ ds = deedsAt ss ++ hs ∧
            HandsOver (batch ++ placedAt ss) hs ∧ b.Goes trigger w₁ hs w' ∧
              b.Reckons kind t ss hs w' := by
  intro entries
  induction entries with
  | nil =>
    intro off batch t w _ hbatch hw
    unfold walk
    refine does_flush_pure hbatch hw fun hs w' hover hwent hw' =>
      ⟨[], w, hs, .done off w, rfl, ?_, hwent, .nil hw'⟩
    rwa [placedAt, List.filterMap_nil, List.append_nil]
  | cons entry entries ih =>
    intro off batch t w hblocks hbatch hw
    unfold walk
    refine does_readArea_bind ?_
    split_ifs with hyield
    · simp only [Bool.and_eq_true, decide_eq_true_eq] at hyield
      refine does_flush_pure hbatch hw fun hs w' hover hwent hw' =>
        ⟨[], w, hs, .yielded hyield.1 hyield.2, rfl, ?_, hwent, .nil hw'⟩
      rwa [placedAt, List.filterMap_nil, List.append_nil]
    · have hample : trigger = .background → w.area.isShort 0 0 = false := fun hback => by
        simpa [hback] using hyield
      refine does_askArea_bind (fun t htrap => .table (.refl w) hseg (Area.get_of_isLive htrap))
        fun live hlive => ?_
      split_ifs with hisLive
      · subst hisLive
        have hblock := hblocks [] w off (.refl w) hlive
        refine (hvisit t (start + off) entry w hblock hw).bind fun ds v w₁ hwent hvisited => ?_
        obtain ⟨hvisited, htells⟩ := hvisited
        have hlater : ∀ ds' w₂ off, b.Goes trigger w₁ ds' w₂ →
            w₂.area.isLive seg off = .ok true → blocks (start + off) :=
          fun ds' w₂ off hwent' => hblocks (ds ++ ds') w₂ off (hwent.trans hwent')
        cases v with
        | passed =>
          refine (ih (off + 1) batch _ w₁ hlater hbatch htells.stands).mono ?_
          rintro _ r w' - ⟨ss, w₂, hs, hwalk, rfl, hover, hwent', hreckons⟩
          refine ⟨_, w₂, hs, .visited hample hlive hvisited (by simp) hwent hwalk, ?_, hover,
            hwent', .cons htells hreckons⟩
          simp [deedsAt]
        | placed page =>
          have hfront := hfore _ _ _ _ hvisited
          refine (ih (off + 1) (batch ++ [page]) _ w₁ hlater (fun _ => hfront)
            htells.stands).mono ?_
          rintro _ r w' - ⟨ss, w₂, hs, hwalk, rfl, hover, hwent', hreckons⟩
          refine ⟨_, w₂, hs, .visited hample hlive hvisited (by simp) hwent hwalk, ?_, ?_, hwent',
            .cons htells hreckons⟩
          · simp [deedsAt]
          · simpa [placedAt, Visit.page?] using hover
        | failed status =>
          refine does_flush_pure hbatch htells.stands fun hs w' hover hwent' hw' =>
            ⟨_, w₁, hs, .failed hample hlive hvisited hwent, by simp [deedsAt], ?_, hwent',
              .cons htells (.nil hw')⟩
          simpa [placedAt, Visit.page?] using hover
      · obtain rfl := Bool.eq_false_of_not_eq_true hisLive
        refine (ih (off + 1) batch t w hblocks hbatch hw).mono ?_
        rintro _ r w' - ⟨ss, w₂, hs, hwalk, hds, hover, hwent', hreckons⟩
        exact ⟨ss, w₂, hs, .dead hample hlive hwalk, hds, hover, hwent', hreckons⟩

/-- Moves the live blocks of a segment of a kind. -/
def collectLive (b : Backend σ) : BlockKind → SummaryBlock → ℕ → Trigger → Act σ (Outcome Unit)
  | .node => b.collectNodes
  | .data => b.collectData

/-- How a call that moves the live blocks of a segment answers after its walk: as the walk did, but
that a data segment is found not to be empty after a foreground walk that came to its end. -/
inductive Verdict (kind : BlockKind) (trigger : Trigger) : Outcome Unit → Outcome Unit → Prop
  /-- The call answers as the walk did. -/
  | same (r : Outcome Unit) : Verdict kind trigger r r
  /-- Live blocks have been left. -/
  | leftover (data : kind = .data) (foreground : trigger = .foreground) :
      Verdict kind trigger (.ok ()) (.error .badState)

/-- What a call that moves the live blocks of a segment does: its walk begins at the first entry of
the summary and at the first block of the segment, and what has been placed is handed over at its
end. -/
structure Collects (b : Backend σ) (kind : BlockKind) (sum : SummaryBlock) (seg : ℕ)
    (trigger : Trigger) (w : World σ) (ss : List (Sight σ)) (hs : List Deed) (r : Outcome Unit)
    (w' : World σ) : Prop where
  /-- The walk, with its own answer. -/
  walk : ∃ r₁ w₁, Walks b trigger (kind.Visits trigger) seg (w.area.geometry.startBlock seg) 0
    sum.entries.toList w ss r₁ w₁ ∧ Verdict kind trigger r₁ r ∧ b.Goes trigger w₁ hs w'
  /-- The handover. -/
  handover : HandsOver (placedAt ss) hs

/-- A page that a visit adds to the batch has been placed in the foreground. -/
theorem foreground_of_placed (kind : BlockKind) {addr : Address} {entry : Summary}
    {ds : List Deed} {page : Page} (h : kind.Visits trigger addr entry ds (.placed page)) :
    trigger = .foreground := by
  have hsettling : ∀ {page' : Page} {placing : Outcome Address → Exchange} {ds' : List Deed},
      Settling trigger page' placing ds' (.placed page) → trigger = .foreground := by
    intro page' placing ds' h
    cases h with
    | placed hfore _ => exact hfore
  cases kind with
  | node =>
    cases h with
    | moved _ settling => exact hsettling settling
  | data =>
    cases h with
    | moved _ settling => exact hsettling settling

/-- What a call that moves the live blocks of a segment does, and what it counts. -/
theorem reckons_collectLive (kind : BlockKind) (sum : SummaryBlock) {seg : ℕ} (hseg : seg ∈ segs)
    {w : World σ} (hblocks : ∀ addr, b.Meets trigger seg w addr → blocks addr)
    (hw : b.Stands t w) :
    Does b trigger segs blocks (b.recorded.collectLive kind sum seg trigger)
      (b.collectLive kind sum seg trigger) w fun ds r w' => ∃ ss hs, ds = deedsAt ss ++ hs ∧
        b.Collects kind sum seg trigger w ss hs r w' ∧ b.Reckons kind t ss hs w' := by
  have hmet : ∀ ds w₁ off, b.Goes trigger w ds w₁ → w₁.area.isLive seg off = .ok true →
      blocks (w.area.geometry.startBlock seg + off) :=
    fun ds w₁ off hwent hlive => hblocks _ ⟨ds, w₁, off, hwent, hlive, rfl⟩
  -- Either kind of call begins with the address of the first block.
  have hstuck : ∀ t, w.area.geometry.checkedStart seg = .error t →
      b.Stops trigger segs blocks w t := fun t htrap => .start (.refl w) hseg htrap
  cases kind with
  | node =>
    refine does_askArea_bind hstuck fun start hstart => ?_
    obtain ⟨-, rfl⟩ := Geometry.checkedStart_eq_ok.mp hstart
    refine (does_walk hseg (fun _ addr entry _ _ => does_visitNode addr entry)
      (fun _ _ _ _ h => foreground_of_placed .node h) sum.entries.toList 0 [] t w hmet nofun
      hw).mono ?_
    rintro _ r w' - ⟨ss, w₁, hs, hwalk, rfl, hover, hwent, hreckons⟩
    exact ⟨ss, hs, rfl, ⟨⟨r, w₁, hwalk, .same r, hwent⟩, hover⟩, hreckons⟩
  | data =>
    refine does_askArea_bind hstuck fun start hstart => ?_
    obtain ⟨-, rfl⟩ := Geometry.checkedStart_eq_ok.mp hstart
    refine (does_walk hseg (fun _ _ entry _ h => does_visitData h entry)
      (fun _ _ _ _ h => foreground_of_placed .data h) sum.entries.toList 0 [] t w hmet nofun
      hw).bind ?_
    rintro _ r w' - ⟨ss, w₁, hs, hwalk, rfl, hover, hwent, hreckons⟩
    have hsame : ∃ ss' hs', deedsAt ss ++ hs ++ [] = deedsAt ss' ++ hs' ∧
        b.Collects .data sum seg trigger w ss' hs' r w' ∧ b.Reckons .data t ss' hs' w' :=
      ⟨ss, hs, List.append_nil _, ⟨⟨_, w₁, hwalk, .same _, hwent⟩, hover⟩, hreckons⟩
    cases r with
    | error status => exact does_pure hsame
    | ok _ =>
      -- In the foreground the segment is looked at once more.
      cases trigger with
      | background => exact does_pure hsame
      | foreground =>
        refine does_askArea_bind
          (fun t htrap => .table (.refl w') hseg (Area.get_of_liveBlocks htrap)) fun live _ => ?_
        split_ifs
        · exact does_pure hsame
        · exact does_pure ⟨ss, hs, List.append_nil _,
            ⟨⟨_, w₁, hwalk, .leftover rfl rfl, hwent⟩, hover⟩, hreckons⟩

/-- What a call that moves the live blocks of a segment does. -/
theorem does_collectLive (kind : BlockKind) (sum : SummaryBlock) {seg : ℕ} (hseg : seg ∈ segs)
    {w : World σ} (hblocks : ∀ addr, b.Meets trigger seg w addr → blocks addr) :
    Does b trigger segs blocks (b.recorded.collectLive kind sum seg trigger)
      (b.collectLive kind sum seg trigger) w fun ds r w' => ∃ ss hs, ds = deedsAt ss ++ hs ∧
        b.Collects kind sum seg trigger w ss hs r w' := by
  refine (reckons_collectLive kind sum hseg hblocks fun _ => rfl).mono ?_
  rintro ds r w' - ⟨ss, hs, hds, hcollects, -⟩
  exact ⟨ss, hs, hds, hcollects⟩

end Backend

end Reclaim
