import Reclaim.Proofs.Area.Frame
import Reclaim.Proofs.Migration.Ledger
import Reclaim.Proofs.Migration.Passes

/-!
# Filesystems that keep out of the area

A filesystem is confined (`Backend.Confined`) when its lookups change nothing and tell the truth,
and when releasing an index of a file changes the area in no other way than by dropping the block
that the index is recorded to have. A background pass over such a filesystem makes lookups and
releases only. So the lookups of a transcript have told of the very files that it began with
(`Goes.looks`), and a visit leaves the area as it is or drops the block that is visited, which is
then one of an orphan (`sheds_of_visits`).
-/

namespace Reclaim

variable {σ : Type}

/-! ## The contract -/

namespace Files

/-- Whether a slot of a node of an orphan holds a block. -/
def Orphaned (f : Files) (addr : Address) : Prop :=
  ∃ nid index, f.pointer (.slot nid index) = addr ∧ f.linked (f.owner nid) = false

/-- Whether the answer to a query tells the truth. The slots of a loaded node hold what they hold,
and slot `i` holds the block of the file of the node at index `first + i`. -/
def Truthful (f : Files) : Exchange → Prop
  | ⟨.nodePage nid, .ok node⟩ =>
    node.first = f.first nid ∧ ∀ index, node.pointer index = f.pointer (.slot nid index)
  | ⟨.nodeInfo nid, .ok info⟩ => info.ino = f.owner nid
  | ⟨.inode ino, .ok inode⟩ => inode.ino = ino
  | ⟨.isLinked inode, linked⟩ => linked = f.linked inode.ino
  | _ => True

end Files

/-- What a background pass relies on of a filesystem. Every operation may fail, but each gives an
answer. What releasing an index does to the files is left open. -/
structure Backend.Confined (b : Backend σ) (L : Ledger σ) : Prop where
  /-- One block at most is recorded for an index of a file. -/
  single : ∀ v, L.Valid v → ∀ h h', (L.files v).key h = (L.files v).key h' →
    Address.isAllocated ((L.files v).pointer h) = true →
    Address.isAllocated ((L.files v).pointer h') = true →
    (L.files v).pointer h = (L.files v).pointer h'
  /-- The index of a slot that holds a block, and the one behind it, fit 64 bits. -/
  indices : ∀ v, L.Valid v → ∀ nid slot,
    Address.isAllocated ((L.files v).pointer (.slot nid slot)) = true →
    (L.files v).first nid + slot + 1 < 2 ^ 64
  /-- A lookup changes nothing and tells the truth. -/
  looks : ∀ q, q.IsLookup → ∀ w, w.area.Sound → L.Valid w.host →
    ∃ r w', b.ask q w = .ok (r, w') ∧ L.Same w w' ∧ (L.files w.host).Truthful ⟨q, r⟩
  /-- Releasing an index changes the area by dropping the recorded block, if at all. -/
  punch : ∀ inode index w, w.area.Sound → L.Valid w.host →
    ∃ r w', b.punch inode index (index + 1) true w = .ok (r, w') ∧ L.Valid w'.host ∧
      (w'.area = w.area ∨ ∃ h r', (L.files w.host).key h = .data inode.ino index ∧
        w.area.invalidate ((L.files w.host).pointer h) = .ok (r', w'.area))

/-! ## Transcripts taken apart -/

namespace Backend.Goes

variable {b : Backend σ} {trigger : Trigger} {w w' : World σ}

/-- The world after the first deed of a transcript. -/
theorem of_cons {d : Deed} {ds : List Deed} (h : b.Goes trigger w (d :: ds) w') :
    ∃ w₁, b.Goes trigger w [d] w₁ ∧ b.Goes trigger w₁ ds w' := by
  generalize hall : d :: ds = all at h
  induction h with
  | refl w => cases hall
  | call allowed run went =>
    cases hall
    exact ⟨_, .call allowed run (.refl _), went⟩
  | raise allowed went =>
    cases hall
    exact ⟨_, .raise allowed (.refl _), went⟩
  | count f _ ih =>
    obtain ⟨w₁, hfirst, hrest⟩ := ih hall
    exact ⟨w₁, .count f hfirst, hrest⟩

/-- The world between the two parts of a transcript. -/
theorem of_append {ds ds' : List Deed} (h : b.Goes trigger w (ds ++ ds') w') :
    ∃ w₁, b.Goes trigger w ds w₁ ∧ b.Goes trigger w₁ ds' w' := by
  induction ds generalizing w with
  | nil => exact ⟨w, .refl w, h⟩
  | cons d ds ih =>
    obtain ⟨w₁, hfirst, hrest⟩ := of_cons h
    obtain ⟨w₂, hmore, hlast⟩ := ih hrest
    exact ⟨w₂, hfirst.trans hmore, hlast⟩

/-- In an empty transcript nothing but counting is done. -/
theorem of_nil (h : b.Goes trigger w [] w') : w'.area = w.area ∧ w'.host = w.host := by
  generalize hds : ([] : List Deed) = ds at h
  induction h with
  | refl w => exact ⟨rfl, rfl⟩
  | call _ _ _ _ => cases hds
  | raise _ _ _ => cases hds
  | count _ _ ih => exact ih hds

/-- A transcript of one query: before and after it nothing but counting is done. -/
theorem of_call {q : Query} {r : q.Answer} (h : b.Goes trigger w [.call ⟨q, r⟩] w') :
    ∃ w₁ w₂, w₁.area = w.area ∧ w₁.host = w.host ∧ b.ask q w₁ = .ok (r, w₂) ∧
      w'.area = w₂.area ∧ w'.host = w₂.host := by
  generalize hds : [Deed.call ⟨q, r⟩] = ds at h
  induction h with
  | refl w => cases hds
  | raise _ _ _ => cases hds
  | count _ _ ih => exact ih hds
  | @call w w₁ w' q' r' rest _ run went _ =>
    cases hds
    obtain ⟨harea, hhost⟩ := went.of_nil
    exact ⟨w, w₁, rfl, rfl, run, harea, hhost⟩

variable {L : Ledger σ} {ds : List Deed}

/-- Lookups leave the area and the files as they are and tell the truth about them, however many are
made. -/
theorem looks (hb : b.Confined L) (h : b.Goes trigger w ds w')
    (hlooks : ∀ e ∈ calls ds, e.1.IsLookup) (hsound : w.area.Sound) (hvalid : L.Valid w.host) :
    L.Same w w' ∧ ∀ e ∈ calls ds, (L.files w.host).Truthful e := by
  induction h with
  | refl w => exact ⟨⟨rfl, rfl, hvalid⟩, List.forall_mem_nil _⟩
  | @call w w₁ w' q r rest allowed run went ih =>
    obtain ⟨hq, hrest⟩ := List.forall_mem_cons.mp hlooks
    obtain ⟨r', w₁', hrun, hsame, htruth⟩ := hb.looks q hq w hsound hvalid
    cases hrun.symm.trans run
    obtain ⟨hsame', htruths⟩ := ih hrest (by rw [hsame.area]; exact hsound) hsame.valid
    rw [hsame.files] at htruths
    exact ⟨hsame.trans hsame', List.forall_mem_cons.mpr ⟨htruth, htruths⟩⟩
  | raise _ _ ih =>
    obtain ⟨hsame, htruths⟩ := ih hlooks hsound hvalid
    exact ⟨⟨hsame.area, hsame.files, hsame.valid⟩, htruths⟩
  | count _ _ ih =>
    obtain ⟨hsame, htruths⟩ := ih hlooks hsound hvalid
    exact ⟨⟨hsame.area, hsame.files, hsame.valid⟩, htruths⟩

end Backend.Goes

/-- The queries of a transcript of lookups are lookups. -/
theorem OnlyLooks.calls {ds : List Deed} (h : OnlyLooks ds) : ∀ e ∈ calls ds, e.1.IsLookup := by
  intro e he
  obtain ⟨d, hd, hcall⟩ := List.mem_filterMap.mp he
  obtain ⟨e', rfl, hlook⟩ := h d hd
  cases hcall
  exact hlook

/-! ## Visits in the background -/

/-- Releasing an index makes no block one of an orphan. -/
def Backend.Tame (b : Backend σ) (L : Ledger σ) : Prop :=
  ∀ inode index w r w', b.punch inode index (index + 1) true w = .ok (r, w') →
    ∀ x, (L.files w'.host).Orphaned x → (L.files w.host).Orphaned x

/-- What the background visit of a live block does to the area and the files. -/
inductive Backend.Sheds (b : Backend σ) (L : Ledger σ) (addr : Address) (w w' : World σ) : Prop
  /-- Nothing. -/
  | kept (same : L.Same w w')
  /-- The block is one of an orphan and may have been dropped. -/
  | released (orphaned : (L.files w.host).Orphaned addr) (valid : L.Valid w'.host)
      (area : w'.area = w.area ∨ ∃ r, w.area.invalidate addr = .ok (r, w'.area))
      (tame : b.Tame L → ∀ x, (L.files w'.host).Orphaned x → (L.files w.host).Orphaned x)

/-- Nothing is done with a page in the background. -/
theorem Settling.background {page : Page} {placing : Outcome Address → Exchange} {ds : List Deed}
    {v : Visit} (h : Settling .background page placing ds v) : ds = [] ∧ v = .passed := by
  cases h with
  | left _ => exact ⟨rfl, rfl⟩
  | placed hfore _ => cases hfore
  | refused hfore _ => cases hfore

/-- A visit in the background passes the block. -/
theorem BlockKind.Visits.passed {kind : BlockKind} {addr : Address} {entry : Summary}
    {ds : List Deed} {v : Visit} (h : kind.Visits .background addr entry ds v) : v = .passed := by
  cases kind with
  | node =>
    cases h with
    | stale _ => rfl
    | moved _ settling => exact settling.background.2
  | data =>
    cases h with
    | stale _ => rfl
    | released _ _ => rfl
    | moved _ settling => exact settling.background.2

section

variable {b : Backend σ} {L : Ledger σ} {addr : Address} {entry : Summary} {w w' : World σ}
  {ds : List Deed}

/-- Dropping the block recorded for an index drops the one that a slot of the index holds, or
nothing. -/
theorem Backend.Confined.drops (hb : b.Confined L) (hvalid : L.Valid w.host) {h h' : Holder}
    {a' : Area} {r : Outcome Unit} (hkey : (L.files w.host).key h' = (L.files w.host).key h)
    (hallocated : Address.isAllocated ((L.files w.host).pointer h) = true)
    (hdrop : w.area.invalidate ((L.files w.host).pointer h') = .ok (r, a')) :
    a' = w.area ∨ ∃ r, w.area.invalidate ((L.files w.host).pointer h) = .ok (r, a') := by
  rcases Area.invalidate_cases hdrop with hsame | ⟨seg, table, hseg, -, -⟩
  · exact Or.inl hsame
  · have hallocated' := Geometry.isAllocated_of_segmentOf? hseg
    rw [hb.single _ hvalid h' h hkey hallocated' hallocated] at hdrop
    exact Or.inr ⟨r, hdrop⟩

/-- What the search for an owner has found is so: the slot of the entry is that of the owner at the
index, and it holds the block. -/
theorem Backend.Confined.found (hb : b.Confined L) {trigger : Trigger} {owner : Owner}
    (search : OwnerSearch addr entry ds (some owner)) (went : b.Goes trigger w ds w')
    (hsound : w.area.Sound) (hvalid : L.Valid w.host) :
    L.Same w w' ∧ (L.files w.host).pointer (.slot entry.nid entry.slot) = addr ∧
      owner.inode.ino = (L.files w.host).owner entry.nid ∧
      owner.index = (L.files w.host).first entry.nid + entry.slot := by
  obtain ⟨hsame, htruth⟩ := went.looks hb search.onlyLooks.calls hsound hvalid
  cases search with
  | @found node info inode hpointer =>
    simp only [calls, List.filterMap_cons, List.filterMap_nil, List.forall_mem_cons] at htruth
    obtain ⟨-, ⟨hfirst, hslots⟩, hinfo, hinode, -⟩ := htruth
    exact ⟨hsame, (hslots _).symm.trans hpointer, hinode.trans hinfo, congrArg (· + _) hfirst⟩

/-- The index at which a block is found in its file, and the one behind it, fit 64 bits. -/
theorem Backend.Confined.index_lt (hb : b.Confined L) {trigger : Trigger} {owner : Owner}
    (search : OwnerSearch addr entry ds (some owner)) (went : b.Goes trigger w ds w')
    (hsound : w.area.Sound) (hvalid : L.Valid w.host)
    (hallocated : Address.isAllocated addr = true) : owner.index + 1 < 2 ^ 64 := by
  obtain ⟨-, hpointer, -, hindex⟩ := hb.found search went hsound hvalid
  rw [← hpointer] at hallocated
  rw [hindex]
  exact hb.indices _ hvalid _ _ hallocated

/-- The slot of an orphan that the search for an owner has found is the one that is released. -/
theorem sheds_of_release (hb : b.Confined L) {front : List Deed} {owner : Owner}
    {answer : Outcome Unit} (search : OwnerSearch addr entry front (some owner))
    (went : b.Goes .background w (front ++ [.call ⟨.isLinked owner.inode, false⟩,
      .call ⟨.punch owner.inode owner.index (owner.index + 1) true, answer⟩]) w')
    (hsound : w.area.Sound) (hvalid : L.Valid w.host)
    (hallocated : Address.isAllocated addr = true) : b.Sheds L addr w w' := by
  obtain ⟨w₁, hlooked, hrest⟩ := went.of_append
  obtain ⟨hsame₁, hpointer, howner, hindex⟩ := hb.found search hlooked hsound hvalid
  obtain ⟨w₂, hasked, hpunched⟩ := hrest.of_cons
  obtain ⟨hsame₂, htruth⟩ := hasked.looks hb (by simp [calls, Query.IsLookup])
    (by rw [hsame₁.area]; exact hsound) hsame₁.valid
  have hsame := hsame₁.trans hsame₂
  obtain ⟨w₃, w₄, harea₃, hhost₃, hpunch, harea₄, hhost₄⟩ := hpunched.of_call
  -- What the lookups have told: the slot of an orphan holds the block.
  have hlinked : (L.files w.host).linked owner.inode.ino = false := by
    rw [← hsame₁.files]
    exact (htruth _ List.mem_cons_self).symm
  have hkey : (L.files w.host).key (.slot entry.nid entry.slot) =
      .data owner.inode.ino owner.index := by
    show PageKey.data _ _ = _
    rw [howner, hindex]
  have horphaned : (L.files w.host).Orphaned addr :=
    ⟨entry.nid, entry.slot, hpointer, by rw [← howner, hlinked]⟩
  obtain ⟨r, w₅, hrun, hvalid₅, hdropped⟩ := hb.punch owner.inode owner.index w₃
    (by rw [harea₃, hsame.area]; exact hsound) (by rw [hhost₃]; exact hsame.valid)
  cases hrun.symm.trans hpunch
  refine .released horphaned (by rw [hhost₄]; exact hvalid₅) ?_ fun htame x hx => ?_
  · rw [harea₃, hsame.area, hhost₃, hsame.files, ← hkey] at hdropped
    rw [harea₄]
    rcases hdropped with hkept | ⟨h, r', hh, hdrop⟩
    · exact Or.inl hkept
    · rw [← hpointer] at hallocated ⊢
      exact hb.drops hvalid hh hallocated hdrop
  · rw [hhost₄] at hx
    have hbefore := htame _ _ _ _ _ hrun x hx
    rwa [hhost₃, hsame.files] at hbefore

/-- The visit of a live block in the background leaves the area as it is or drops the block, if that
is one of an orphan. -/
theorem sheds_of_visits (hb : b.Confined L) {kind : BlockKind} {v : Visit}
    (hvisit : kind.Visits .background addr entry ds v) (went : b.Goes .background w ds w')
    (hsound : w.area.Sound) (hvalid : L.Valid w.host)
    (hallocated : Address.isAllocated addr = true) : b.Sheds L addr w w' := by
  -- Unless a block is released, there are lookups only.
  have hkept : (∀ e ∈ calls ds, e.1.IsLookup) → b.Sheds L addr w w' := fun hlooks =>
    .kept (went.looks hb hlooks hsound hvalid).1
  cases kind with
  | node =>
    cases hvisit with
    | stale lookups => exact hkept lookups.calls
    | moved _ settling =>
      obtain ⟨rfl, -⟩ := settling.background
      exact hkept (by simp [calls, Query.IsLookup])
  | data =>
    cases hvisit with
    | stale lookups => exact hkept lookups.calls
    | released search _ => exact sheds_of_release hb search went hsound hvalid hallocated
    | moved search settling =>
      obtain ⟨rfl, -⟩ := settling.background
      refine hkept ?_
      rw [calls_append]
      exact List.forall_mem_append.mpr ⟨search.onlyLooks.calls, by simp [calls, Query.IsLookup]⟩

end

end Reclaim
