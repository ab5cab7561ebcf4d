import Reclaim.Proofs.Area.Pruning
import Reclaim.Proofs.Migration.Confined
import Reclaim.Proofs.Migration.Ownership
import Reclaim.Proofs.Volume.Confined

/-!
# A background pass moves nothing

Over a confined filesystem a background pass always gives an answer (`Confined.not_stops`). What it
does to the area is to drop blocks of orphans (`HasShed`): each visit adds a block at most, and
since dropping blocks neither frees a section nor takes one, the test for which a walk gives way
comes out the same at each entry. So a pass begun when free sections are short reads summaries up to
the first that is not empty (`Skims`), and another one is only ended early by a summary that cannot
be read.

`collectSection_moves_nothing` is the result for a whole pass.
-/

namespace Reclaim

variable {σ : Type}

/-- Dropping blocks neither frees a section nor takes one. -/
theorem Area.Pruned.isShort_eq {a a' : Area} {dropped : Address → Prop} (h : a.Pruned dropped a')
    (freed needed : ℕ) : a'.isShort freed needed = a.isShort freed needed := by
  unfold Area.isShort Area.sectionsFor
  rw [h.rest]

/-! ## An answer is given -/

/-- What is allowed in the background is a lookup or the release of one index. -/
theorem Query.Allowed.background {q : Query} (h : q.Allowed .background) :
    q.IsLookup ∨ ∃ inode index, q = .punch inode index (index + 1) true := by
  cases q with
  | punch inode start stop evict =>
    obtain ⟨rfl, rfl⟩ := h
    exact Or.inr ⟨inode, start, rfl⟩
  | placeNode _ => cases h
  | placeData _ _ => cases h
  | writeback _ => cases h
  | checkpointFailed => cases h
  | writeCheckpoint => cases h
  | _ => exact Or.inl trivial

namespace Backend.Confined

variable {b : Backend σ} {L : Ledger σ} {w w' : World σ} {ds : List Deed} {segs : List ℕ} {t : Trap}

/-- What is allowed in the background is answered, and leaves things in order. -/
theorem answers (hb : b.Confined L) {q : Query} (hq : q.Allowed .background)
    (hsound : w.area.Sound) (hvalid : L.Valid w.host) :
    ∃ r w', b.ask q w = .ok (r, w') ∧ w'.area.Sound ∧ L.Valid w'.host ∧
      w'.area.geometry = w.area.geometry := by
  rcases hq.background with hlook | ⟨inode, index, rfl⟩
  · obtain ⟨r, w', hrun, hsame, -⟩ := hb.looks q hlook w hsound hvalid
    exact ⟨r, w', hrun, by rw [hsame.area]; exact hsound, hsame.valid, by rw [hsame.area]⟩
  · obtain ⟨r, w', hrun, hvalid', harea | ⟨h, r', -, hdrop⟩⟩ := hb.punch inode index w hsound hvalid
    · exact ⟨r, w', hrun, by rw [harea]; exact hsound, hvalid', by rw [harea]⟩
    · obtain ⟨hsound', hevolves, -⟩ := hsound.invalidate_evolves hdrop
      exact ⟨r, w', hrun, hsound', hvalid', hevolves.geometry⟩

/-- What is done in the background leaves things in order. -/
theorem calm (hb : b.Confined L) (went : b.Goes .background w ds w') (hsound : w.area.Sound)
    (hvalid : L.Valid w.host) :
    w'.area.Sound ∧ L.Valid w'.host ∧ w'.area.geometry = w.area.geometry := by
  refine went.keeps (I := fun w₁ => w₁.area.Sound ∧ L.Valid w₁.host ∧
    w₁.area.geometry = w.area.geometry) ?_ ?_ ⟨hsound, hvalid, rfl⟩
  · intro w₁ w₂ harea hhost hw₁
    rw [harea, hhost]
    exact hw₁
  · rintro q r w₁ w₂ hq - ⟨hsound₁, hvalid₁, hgeometry⟩ hrun
    obtain ⟨r', w₃, hrun', hsound₃, hvalid₃, hgeometry₃⟩ := hb.answers hq hsound₁ hvalid₁
    cases hrun'.symm.trans hrun
    exact ⟨hsound₃, hvalid₃, hgeometry₃.trans hgeometry⟩

/-- The blocks that a background pass over segments of the area comes to have addresses of
blocks. -/
theorem isAllocated_of_ranges (hb : b.Confined L) (hsound : w.area.Sound) (hvalid : L.Valid w.host)
    (hsegs : ∀ seg ∈ segs, seg < w.area.geometry.segments) {addr : Address}
    (h : b.Ranges .background segs w addr) : Address.isAllocated addr = true := by
  obtain ⟨seg, hseg, ds, w₁, went, ds', w₂, off, went', hlive, rfl⟩ := h
  obtain ⟨hsound₁, hvalid₁, hgeometry₁⟩ := hb.calm went hsound hvalid
  obtain ⟨hsound₂, -, hgeometry₂⟩ := hb.calm went' hsound₁ hvalid₁
  have hlt : seg < w₂.area.geometry.segments := by
    rw [hgeometry₂, hgeometry₁]
    exact hsegs seg hseg
  obtain ⟨-, seg', hseg', -⟩ := hsound₂.liveIn_of_isLive hlt hlive
  rw [← hgeometry₂]
  exact Geometry.isAllocated_of_segmentOf? hseg'

/-- A background pass over segments of the area does not stop without an answer. -/
theorem not_stops (hb : b.Confined L) (hsound : w.area.Sound) (hvalid : L.Valid w.host)
    (hsegs : ∀ seg ∈ segs, seg < w.area.geometry.segments) :
    ¬b.Stops .background segs (b.Ranges .background segs w) w t := by
  have hallocated : ∀ addr, b.Ranges .background segs w addr → Address.isAllocated addr = true :=
    fun addr => hb.isAllocated_of_ranges hsound hvalid hsegs
  intro h
  cases h with
  | call went allowed trap =>
    obtain ⟨hsound₁, hvalid₁, -⟩ := hb.calm went hsound hvalid
    obtain ⟨r, w', hrun, -⟩ := hb.answers allowed hsound₁ hvalid₁
    cases trap.symm.trans hrun
  | table went listed trap =>
    obtain ⟨hsound₁, -, hgeometry⟩ := hb.calm went hsound hvalid
    have hlt := hsegs _ listed
    rw [← hgeometry] at hlt
    rw [SegmentTable.get_eq (hsound₁.lt_size hlt)] at trap
    cases trap
  | start went listed trap =>
    obtain ⟨hsound₁, -, hgeometry⟩ := hb.calm went hsound hvalid
    have hlt := hsegs _ listed
    rw [← hgeometry] at hlt
    cases (Geometry.checkedStart_eq hsound₁.geometry hlt).symm.trans trap
  | index went visited looked search wide trap =>
    obtain ⟨hsound₁, hvalid₁, -⟩ := hb.calm went hsound hvalid
    have hlt := hb.index_lt search looked hsound₁ hvalid₁ (hallocated _ visited)
    omega
  | behind went visited looked search wide trap =>
    obtain ⟨hsound₁, hvalid₁, -⟩ := hb.calm went hsound hvalid
    obtain ⟨w₃, hlooked, -⟩ := looked.of_append
    have hlt := hb.index_lt search hlooked hsound₁ hvalid₁ (hallocated _ visited)
    omega

end Backend.Confined

/-! ## What is dropped -/

/-- The address of the block at a sight. -/
def Sight.address (s : Sight σ) (g : Geometry) : Address := g.startBlock s.seg + s.off

/-- What a background pass over a section has done so far: it has dropped blocks of the section. As
long as it has not met a block of an orphan it has changed neither the area nor the files. -/
structure Backend.HasShed (b : Backend σ) (L : Ledger σ) (sec : ℕ) (w₀ w : World σ)
    (dropped : List Address) : Prop where
  /-- The area is what dropping the blocks leaves. -/
  area : w₀.area.dropEach dropped = .ok w.area
  /-- The blocks are live ones of the section. -/
  inside : ∀ x ∈ dropped, w₀.area.LiveIn sec x
  /-- What the filesystem keeps is in order. -/
  valid : L.Valid w.host
  /-- If the section holds no block of an orphan, nothing changes. -/
  untouched : (∀ x, w₀.area.LiveIn sec x → ¬(L.files w₀.host).Orphaned x) →
    w.area = w₀.area ∧ L.files w.host = L.files w₀.host
  /-- The blocks were such of orphans from the start, unless releasing makes orphans. -/
  orphaned : b.Tame L → ∀ x ∈ dropped, (L.files w₀.host).Orphaned x
  /-- The blocks of orphans were such from the start, unless releasing makes orphans. -/
  tame : b.Tame L → ∀ x, (L.files w.host).Orphaned x → (L.files w₀.host).Orphaned x

namespace Backend.HasShed

variable {b : Backend σ} {L : Ledger σ} {sec seg off : ℕ} {w₀ w w' : World σ}
  {dropped : List Address}

/-- A pass that has just begun has done nothing. -/
theorem refl (hvalid : L.Valid w.host) : b.HasShed L sec w w [] :=
  ⟨rfl, List.forall_mem_nil _, hvalid, fun _ => ⟨rfl, rfl⟩, fun _ => List.forall_mem_nil _,
    fun _ _ => id⟩

/-- What has not changed the area and the files is nothing to a pass. -/
theorem same (h : b.HasShed L sec w₀ w dropped) (hsame : L.Same w w') :
    b.HasShed L sec w₀ w' dropped where
  area := by rw [hsame.area]; exact h.area
  inside := h.inside
  valid := hsame.valid
  untouched hnone := by rw [hsame.area, hsame.files]; exact h.untouched hnone
  orphaned := h.orphaned
  tame htame x hx := h.tame htame x (by rwa [hsame.files] at hx)

/-- The area is that from the start, pruned of the dropped blocks. -/
theorem pruned (h : b.HasShed L sec w₀ w dropped) (hsound : w₀.area.Sound) :
    w₀.area.Pruned (· ∈ dropped) w.area :=
  hsound.pruned_of_dropEach h.area

/-- A block that is live in a segment of the section was so from the start. -/
theorem liveIn (h : b.HasShed L sec w₀ w dropped) (hsound : w₀.area.Sound)
    (hseg : seg < w₀.area.geometry.segments) (hsec : w₀.area.geometry.sectionOf seg = sec)
    (hlive : w.area.isLive seg off = .ok true) :
    w.area.LiveIn sec (w₀.area.geometry.startBlock seg + off) ∧
      w₀.area.LiveIn sec (w₀.area.geometry.startBlock seg + off) := by
  have hpruned := h.pruned hsound
  have hgeometry := hpruned.geometry
  have hin := hpruned.sound.liveIn_of_isLive (by rw [hgeometry]; exact hseg) hlive
  rw [hgeometry, hsec] at hin
  refine ⟨hin, ((hpruned.live _).mp hin.1).1, ?_⟩
  obtain ⟨-, seg', hseg', hsec'⟩ := hin
  rw [hgeometry] at hseg' hsec'
  exact ⟨seg', hseg', hsec'⟩

/-- What a visit sheds adds to what the pass has shed. -/
theorem visit (h : b.HasShed L sec w₀ w dropped) {addr : Address} (hin : w₀.area.LiveIn sec addr)
    (hsheds : b.Sheds L addr w w') :
    ∃ more, b.HasShed L sec w₀ w' (dropped ++ more) ∧
      ∀ x ∈ more, addr = x ∧ (L.files w.host).Orphaned x := by
  cases hsheds with
  | kept hsame =>
    refine ⟨[], ?_, List.forall_mem_nil _⟩
    rw [List.append_nil]
    exact h.same hsame
  | released horphaned hvalid harea htame =>
    -- A block of an orphan has been met, so the files need not be what they were.
    have hmet : ¬∀ x, w₀.area.LiveIn sec x → ¬(L.files w₀.host).Orphaned x := by
      intro hnone
      obtain ⟨-, hfiles⟩ := h.untouched hnone
      rw [hfiles] at horphaned
      exact hnone addr hin horphaned
    have htame' : b.Tame L → ∀ x, (L.files w'.host).Orphaned x → (L.files w₀.host).Orphaned x :=
      fun ht x hx => h.tame ht x (htame ht x hx)
    rcases harea with hsame | ⟨r, hdrop⟩
    · refine ⟨[], ?_, List.forall_mem_nil _⟩
      rw [List.append_nil]
      exact ⟨by rw [hsame]; exact h.area, h.inside, hvalid, fun hnone => absurd hnone hmet,
        h.orphaned, htame'⟩
    · have hone : w.area.dropEach [addr] = .ok w'.area := by
        unfold Area.dropEach
        rw [hdrop, Guarded.ok_bind]
        rfl
      refine ⟨[addr], ⟨?_, ?_, hvalid, fun hnone => absurd hnone hmet, fun ht => ?_, htame'⟩, ?_⟩
      · rw [Area.dropEach_append _ h.area, hone]
      · exact List.forall_mem_append.mpr ⟨h.inside, by simpa using hin⟩
      · exact List.forall_mem_append.mpr
          ⟨h.orphaned ht, by simpa using h.tame ht addr horphaned⟩
      · simpa using horphaned

end Backend.HasShed

/-- Whether each of a list of blocks was found to be one of an orphan when it was visited. -/
def Seen (L : Ledger σ) (g : Geometry) (dropped : List Address) (ss : List (Sight σ)) : Prop :=
  ∀ x ∈ dropped, ∃ s ∈ ss, s.address g = x ∧ (L.files s.before.host).Orphaned x

/-- Blocks that were found earlier and blocks that were found later were found. -/
theorem Seen.append {L : Ledger σ} {g : Geometry} {dropped dropped' : List Address}
    {ss ss' : List (Sight σ)} (h : Seen L g dropped ss) (h' : Seen L g dropped' ss') :
    Seen L g (dropped ++ dropped') (ss ++ ss') := by
  intro x hx
  rcases List.mem_append.mp hx with hx | hx
  · obtain ⟨s, hs, hseen⟩ := h x hx
    exact ⟨s, List.mem_append_left _ hs, hseen⟩
  · obtain ⟨s, hs, hseen⟩ := h' x hx
    exact ⟨s, List.mem_append_right _ hs, hseen⟩

/-! ## What is marked -/

/-- How the deeds at a block come to raise a flag of a page. The lookups among them have found the
owner of the page, and it points at the block. -/
inductive Raises (addr : Address) (ds : List Deed) : Page → PageFlag → Prop
  /-- The page is that of the node that lives in the block. -/
  | node (nid : ℕ) (node : NodePage) (info : NodeInfo)
      (loaded : .call ⟨.nodePage nid, .ok node⟩ ∈ ds) (found : .call ⟨.nodeInfo nid, .ok info⟩ ∈ ds)
      (address : info.address = addr) : Raises addr ds node.page .dirty
  /-- The page is that of the file at the index of a slot that points at the block. -/
  | data (nid slot : ℕ) (node : NodePage) (info : NodeInfo) (inode : Inode) {page : Page}
      {flag : PageFlag} (loaded : .call ⟨.nodePage nid, .ok node⟩ ∈ ds)
      (found : .call ⟨.nodeInfo nid, .ok info⟩ ∈ ds)
      (owner : .call ⟨.inode info.ino, .ok inode⟩ ∈ ds) (pointer : node.pointer slot = addr)
      (cached : .call ⟨.dataPage inode (node.first + slot), .ok page⟩ ∈ ds)
      (flagged : flag = .dirty ∨ flag = .cold) : Raises addr ds page flag

/-- Lookups raise no flag. -/
theorem OnlyLooks.not_raise {ds : List Deed} (h : OnlyLooks ds) {page : Page} {flag : PageFlag} :
    .raise page flag ∉ ds := by
  intro hmem
  obtain ⟨e, heq, -⟩ := h _ hmem
  cases heq

/-- What a background visit raises it raises for an owner that points at the block. -/
theorem BlockKind.Visits.raises {kind : BlockKind} {addr : Address} {entry : Summary}
    {ds : List Deed} {v : Visit} (h : kind.Visits .background addr entry ds v) {page : Page}
    {flag : PageFlag} (hraise : .raise page flag ∈ ds) : Raises addr ds page flag := by
  cases kind with
  | node =>
    cases h with
    | stale lookups => exact absurd hraise lookups.not_raise
    | @moved node info ds v haddr settling =>
      obtain ⟨rfl, -⟩ := settling.background
      simp only [List.mem_cons, List.not_mem_nil, reduceCtorEq, false_or, or_false,
        Deed.raise.injEq] at hraise
      obtain ⟨rfl, rfl⟩ := hraise
      exact .node entry.nid node info (by simp) (by simp) haddr
  | data =>
    cases h with
    | stale lookups => exact absurd hraise lookups.not_raise
    | released search _ =>
      rcases List.mem_append.mp hraise with hfront | hback
      · exact absurd hfront search.onlyLooks.not_raise
      · simp at hback
    | @moved front ds owner page' v search settling =>
      obtain ⟨rfl, -⟩ := settling.background
      rcases List.mem_append.mp hraise with hfront | hback
      · exact absurd hfront search.onlyLooks.not_raise
      · simp only [List.mem_cons, List.not_mem_nil, reduceCtorEq, false_or, or_false,
          Deed.raise.injEq] at hback
        cases search with
        | @found node info inode hpointer =>
          obtain ⟨rfl, hflag⟩ : page = page' ∧ (flag = .dirty ∨ flag = .cold) := by tauto
          exact .data entry.nid entry.slot node info inode (by simp) (by simp) (by simp) hpointer
            (by simp) hflag

/-! ## Walks and passes -/

/-- What a background pass asks when free sections are short: it reads summaries up to the first
that is not empty, where it gives way, or that cannot be read. -/
inductive Skims : List Exchange → Outcome Unit → Prop
  /-- All segments have been passed. -/
  | done : Skims [] (.ok ())
  /-- A summary cannot be read. -/
  | unread (seg : ℕ) (status : Status) : Skims [⟨.summary seg, .error status⟩] (.error status)
  /-- A summary is empty, and the pass goes on. -/
  | empty {es : List Exchange} {r : Outcome Unit} (seg : ℕ) {sum : SummaryBlock}
      (h : sum.entries = #[]) (rest : Skims es r) : Skims (⟨.summary seg, .ok sum⟩ :: es) r
  /-- A summary has an entry, and the pass gives way. -/
  | yielded (seg : ℕ) {sum : SummaryBlock} (h : sum.entries ≠ #[]) :
      Skims [⟨.summary seg, .ok sum⟩] (.error .badState)

/-- Summaries that are empty can be read before. -/
theorem Skims.append {es es' : List Exchange} {r r' : Outcome Unit} (h : Skims es r)
    (hr : r = .ok ()) (h' : Skims es' r') : Skims (es ++ es') r' := by
  induction h with
  | done => exact h'
  | unread _ _ => cases hr
  | empty seg hsum _ ih => exact .empty seg hsum (ih hr)
  | yielded _ _ => cases hr

/-- What a background pass does, begun in a world and made over a section. -/
structure Restful (sec : ℕ) (w₀ : World σ) (ds : List Deed) (ss : List (Sight σ))
    (r : Outcome Unit) : Prop where
  /-- The blocks that are visited are live ones of the section. -/
  sights : ∀ s ∈ ss, s.before.area.LiveIn sec (s.address w₀.area.geometry)
  /-- Flags are raised for owners of blocks that are visited. -/
  raised : ∀ page flag, .raise page flag ∈ ds →
    ∃ s ∈ ss, Raises (s.address w₀.area.geometry) s.deeds page flag
  /-- When free sections are short no block is visited. -/
  short : w₀.area.isShort 0 0 = true → ss = [] ∧ ∃ es, ds = es.map .call ∧ Skims es r
  /-- Otherwise the pass fails at a summary that cannot be read, if at all. -/
  ample : w₀.area.isShort 0 0 = false → r = .ok () ∨ ∃ front seg status,
    ds = front ++ [.call ⟨.summary seg, .error status⟩] ∧ r = .error status

/-- A segment that is done can come before. -/
theorem Restful.append {sec : ℕ} {w₀ : World σ} {ds ds' : List Deed} {ss ss' : List (Sight σ)}
    {r : Outcome Unit} (h : Restful sec w₀ ds ss (.ok ())) (h' : Restful sec w₀ ds' ss' r) :
    Restful sec w₀ (ds ++ ds') (ss ++ ss') r where
  sights := List.forall_mem_append.mpr ⟨h.sights, h'.sights⟩
  raised page flag hraise := by
    rcases List.mem_append.mp hraise with hraise | hraise
    · obtain ⟨s, hs, hraises⟩ := h.raised page flag hraise
      exact ⟨s, List.mem_append_left _ hs, hraises⟩
    · obtain ⟨s, hs, hraises⟩ := h'.raised page flag hraise
      exact ⟨s, List.mem_append_right _ hs, hraises⟩
  short hshort := by
    obtain ⟨rfl, es, rfl, hskims⟩ := h.short hshort
    obtain ⟨rfl, es', rfl, hskims'⟩ := h'.short hshort
    exact ⟨rfl, es ++ es', by rw [List.map_append], hskims.append rfl hskims'⟩
  ample hample := by
    rcases h'.ample hample with hok | ⟨front, seg, status, rfl, hr⟩
    · exact Or.inl hok
    · exact Or.inr ⟨ds ++ front, seg, status, by rw [List.append_assoc], hr⟩

section

variable {b : Backend σ} {L : Ledger σ} {sec seg : ℕ} {w₀ w w' : World σ} {ss : List (Sight σ)}
  {r : Outcome Unit} {kind : BlockKind} {off : ℕ} {entries : List Summary} {dropped : List Address}

/-- A walk that begins when free sections are short visits no block. -/
theorem Walks.short {visits : Address → Summary → List Deed → Visit → Prop} {start : Address}
    (h : Walks b .background visits seg start off entries w ss r w')
    (hshort : w.area.isShort 0 0 = true) :
    ss = [] ∧ (entries = [] ∧ r = .ok () ∨ entries ≠ [] ∧ r = .error .badState) := by
  cases h with
  | done off w => exact ⟨rfl, Or.inl ⟨rfl, rfl⟩⟩
  | yielded _ _ => exact ⟨rfl, Or.inr ⟨List.cons_ne_nil _ _, rfl⟩⟩
  | dead ample _ _ => rw [ample rfl] at hshort; cases hshort
  | visited ample _ _ _ _ _ => rw [ample rfl] at hshort; cases hshort
  | failed ample _ _ _ => rw [ample rfl] at hshort; cases hshort

/-- A background walk over a segment of the section drops blocks of orphans that it visits, and
comes to its end unless free sections are short. -/
theorem Walks.sheds (hb : b.Confined L) (hsound : w₀.area.Sound)
    (hlt : seg < w₀.area.geometry.segments) (hsec : w₀.area.geometry.sectionOf seg = sec)
    (h : Walks b .background (kind.Visits .background) seg (w₀.area.geometry.startBlock seg) off
      entries w ss r w') :
    ∀ {dropped}, b.HasShed L sec w₀ w dropped →
      ∃ more, b.HasShed L sec w₀ w' (dropped ++ more) ∧ Seen L w₀.area.geometry more ss ∧
        (∀ s ∈ ss, s.before.area.LiveIn sec (s.address w₀.area.geometry) ∧
          ∀ page flag, .raise page flag ∈ s.deeds →
            Raises (s.address w₀.area.geometry) s.deeds page flag) ∧
        (w₀.area.isShort 0 0 = false → r = .ok ()) := by
  induction h with
  | done off w =>
    intro dropped hshed
    exact ⟨[], by rwa [List.append_nil], List.forall_mem_nil _, List.forall_mem_nil _, fun _ => rfl⟩
  | yielded _ hshort =>
    intro dropped hshed
    refine ⟨[], by rwa [List.append_nil], List.forall_mem_nil _, List.forall_mem_nil _,
      fun hample => ?_⟩
    rw [(hshed.pruned hsound).isShort_eq, hample] at hshort
    cases hshort
  | dead _ _ _ ih => exact ih
  | failed _ _ hvisit _ => cases hvisit.passed
  | @visited off entry entries w w₁ w' ds v ss r _ hlive hvisit _ hwent _ ih =>
    intro dropped hshed
    obtain ⟨hin, hin₀⟩ := hshed.liveIn hsound hlt hsec hlive
    have hsheds := sheds_of_visits hb hvisit hwent (hshed.pruned hsound).sound hshed.valid
      hin.1.isAllocated
    obtain ⟨first, hshed₁, hfirst⟩ := hshed.visit hin₀ hsheds
    obtain ⟨more, hshed', hseen, hsights, hend⟩ := ih hshed₁
    rw [List.append_assoc] at hshed'
    have hhere : Seen L w₀.area.geometry first [⟨seg, off, entry, w, ds, v⟩] :=
      fun x hx => ⟨_, List.mem_singleton_self _, hfirst x hx⟩
    exact ⟨first ++ more, hshed', hhere.append hseen,
      List.forall_mem_cons.mpr ⟨⟨hin, fun page flag => hvisit.raises⟩, hsights⟩, hend⟩

/-- A background call that moves the live blocks of a segment hands nothing over, and answers as its
walk did. -/
theorem Backend.Collects.background {sum : SummaryBlock} {hs : List Deed}
    (h : b.Collects kind sum seg .background w ss hs r w') :
    hs = [] ∧ ∃ w₁, Walks b .background (kind.Visits .background) seg
      (w.area.geometry.startBlock seg) 0 sum.entries.toList w ss r w₁ ∧
        w'.area = w₁.area ∧ w'.host = w₁.host := by
  obtain ⟨r₁, w₁, hwalk, hverdict, hwent⟩ := h.walk
  have hover := h.handover
  generalize placedAt ss = pages at hover
  cases hverdict with
  | leftover _ hfore => cases hfore
  | same =>
    cases hover with
    | batch _ accepted => cases hwent.allowed _ List.mem_cons_self
    | nothing => exact ⟨rfl, w₁, hwalk, hwent.of_nil⟩

/-- What a background pass does with one segment. -/
theorem Scans.sheds (hb : b.Confined L) (hsound : w₀.area.Sound)
    (hlt : seg < w₀.area.geometry.segments) (hsec : w₀.area.geometry.sectionOf seg = sec)
    {ds : List Deed} (h : Scans b .background seg w ds ss r w')
    (hshed : b.HasShed L sec w₀ w dropped) :
    ∃ more, b.HasShed L sec w₀ w' (dropped ++ more) ∧ Seen L w₀.area.geometry more ss ∧
      Restful sec w₀ ds ss r := by
  have hsummary : ∀ {answer w₁}, b.ask (.summary seg) w = .ok (answer, w₁) → L.Same w w₁ := by
    intro answer w₁ hrun
    obtain ⟨answer', w₁', hrun', hsame, -⟩ :=
      hb.looks (.summary seg) trivial w (hshed.pruned hsound).sound hshed.valid
    cases hrun'.symm.trans hrun
    exact hsame
  cases h with
  | @unread status w' hrun =>
    refine ⟨[], ?_, List.forall_mem_nil _, List.forall_mem_nil _, by simp,
      fun _ => ⟨rfl, _, rfl, .unread seg status⟩,
      fun _ => Or.inr ⟨[], seg, status, rfl, rfl⟩⟩
    rw [List.append_nil]
    exact hshed.same (hsummary hrun)
  | @read sum kind ss hs r w₁ w₂ w' hrun harea hhost hcollects =>
    -- Up to the walk nothing has changed, and after it nothing does.
    have hsame := hsummary hrun
    have hshed₂ : b.HasShed L sec w₀ w₂ dropped :=
      hshed.same ⟨harea.trans hsame.area, by rw [hhost]; exact hsame.files, by
        rw [hhost]; exact hsame.valid⟩
    have hpruned := hshed₂.pruned hsound
    obtain ⟨rfl, w₃, hwalk, harea₃, hhost₃⟩ := hcollects.background
    rw [hpruned.geometry] at hwalk
    obtain ⟨more, hshed₃, hseen, hsights, hend⟩ := hwalk.sheds hb hsound hlt hsec hshed₂
    refine ⟨more, hshed₃.same ⟨harea₃, by rw [hhost₃], by rw [hhost₃]; exact hshed₃.valid⟩, hseen,
      fun s hs => (hsights s hs).1, fun page flag hraise => ?_, fun hshort => ?_,
      fun hample => Or.inl (hend hample)⟩
    · simp only [List.append_nil, List.mem_cons, reduceCtorEq, false_or] at hraise
      obtain ⟨s, hs, hmem⟩ := List.mem_flatMap.mp hraise
      exact ⟨s, hs, (hsights s hs).2 page flag hmem⟩
    · rw [← hpruned.isShort_eq] at hshort
      obtain ⟨rfl, ⟨hnone, rfl⟩ | ⟨hsome, rfl⟩⟩ := hwalk.short hshort
      · exact ⟨rfl, _, rfl, .empty seg (Array.toList_eq_nil_iff.mp hnone) .done⟩
      · exact ⟨rfl, _, rfl, .yielded seg fun hnone => hsome (by rw [hnone])⟩

/-- What a background pass does with segments of the section. -/
theorem Passes.sheds (hb : b.Confined L) (hsound : w₀.area.Sound) {segs : List ℕ} {ds : List Deed}
    (h : Passes b .background segs w ds ss r w') :
    ∀ {dropped}, (∀ seg ∈ segs, seg < w₀.area.geometry.segments ∧
      w₀.area.geometry.sectionOf seg = sec) → b.HasShed L sec w₀ w dropped →
      ∃ more, b.HasShed L sec w₀ w' (dropped ++ more) ∧ Seen L w₀.area.geometry more ss ∧
        Restful sec w₀ ds ss r := by
  induction h with
  | done w =>
    intro dropped _ hshed
    refine ⟨[], by rwa [List.append_nil], List.forall_mem_nil _, List.forall_mem_nil _, by simp,
      fun _ => ⟨rfl, [], rfl, .done⟩, fun _ => Or.inl rfl⟩
  | empty _ _ ih =>
    intro dropped hsegs hshed
    exact ih (fun s hs => hsegs s (List.mem_cons_of_mem _ hs)) hshed
  | failed hscan =>
    intro dropped hsegs hshed
    obtain ⟨hlt, hsec⟩ := hsegs _ List.mem_cons_self
    exact hscan.sheds hb hsound hlt hsec hshed
  | scanned hscan _ ih =>
    intro dropped hsegs hshed
    obtain ⟨hlt, hsec⟩ := hsegs _ List.mem_cons_self
    obtain ⟨first, hshed₁, hseen₁, hrest₁⟩ := hscan.sheds hb hsound hlt hsec hshed
    obtain ⟨more, hshed', hseen', hrest'⟩ :=
      ih (fun s hs => hsegs s (List.mem_cons_of_mem _ hs)) hshed₁
    rw [List.append_assoc] at hshed'
    exact ⟨first ++ more, hshed', hseen₁.append hseen', hrest₁.append hrest'⟩

end

namespace Backend

/-- Over a confined filesystem a background pass over a section of a reachable area gives an answer,
whatever the summaries say, and moves nothing. What it leaves of the area is what dropping some live
blocks of the section leaves, each of which was found to be one of an orphan when it was visited; if
the section holds no block of an orphan, the area is as it was. It raises no flag but that a page is
dirty and, for a page of a file, cold, and that only for an owner that points at a live block of the
section which is visited. If free sections are short when it begins, it asks for nothing but
summaries, up to the first that is not empty; there it gives way. If not, it never gives way, and
fails only at a summary that cannot be read, with the same status. -/
theorem collectSection_moves_nothing {b : Backend σ} {L : Ledger σ} {w : World σ}
    (hb : b.Confined L) (harea : w.area.Reachable) (hvalid : L.Valid w.host) {sec : ℕ}
    (hsec : sec < w.area.geometry.sections) :
    ∃ r w' ds ss w₁ dropped,
      b.collectSection (w.area.geometry.firstSegment sec) .background w = .ok (r, w') ∧
      (∀ log, b.recorded.collectSection (w.area.geometry.firstSegment sec) .background
        (w.recorded log) = .ok (r, w'.recorded (log ++ calls ds))) ∧
      b.Goes .background w ds w' ∧
      Passes b .background (w.area.geometry.sectionSegments sec) w ds ss r w₁ ∧
      b.HasShed L sec w w' dropped ∧ Seen L w.area.geometry dropped ss ∧
      Restful sec w ds ss r := by
  have hsound := harea.sound
  have hg := hsound.geometry
  have hsegs : ∀ seg ∈ w.area.geometry.sectionSegments sec,
      seg < w.area.geometry.segments ∧ w.area.geometry.sectionOf seg = sec := by
    intro seg hseg
    have hin := (Geometry.mem_sectionSegments hg).mp hseg
    exact ⟨Geometry.lt_segments_of_sectionOf hg hsec hin, hin⟩
  cases does_collectSection (b := b) .background (Geometry.firstSegment_lt hg hsec)
    (Nat.mul_mod_left _ _) with
  | stops _ stuck =>
    exact absurd stuck (hb.not_stops hsound hvalid fun seg hseg => (hsegs seg hseg).1)
  | @gives ds r w' run noted went after =>
    obtain ⟨ss, w₁, harea₁, hhost₁, hpasses⟩ := after
    obtain ⟨dropped, hshed, hseen, hrest⟩ := hpasses.sheds hb hsound hsegs (.refl hvalid)
    rw [List.nil_append] at hshed
    exact ⟨r, w', ds, ss, w₁, dropped, run, noted, went, hpasses,
      hshed.same ⟨harea₁, by rw [hhost₁], by rw [hhost₁]; exact hshed.valid⟩, hseen, hrest⟩

/-- The one block of an orphan is dropped when its section is passed over, and nothing else
happens to the area. -/
theorem collectSection_moves_nothing_orphan :
    ∃ (w w' : World (Volume Empty Unit)) (dropped : List Address), w.area.Reachable ∧
      w.area.isShort 0 0 = false ∧ w.area.isLive 1 0 = .ok true ∧
      (Volume.backend Empty.elim).collectSection (w.area.geometry.firstSegment 1) .background w =
        .ok (.ok (), w') ∧
      w'.area.isLive 1 0 = .ok false ∧ w.area.dropEach dropped = .ok w'.area ∧ dropped ≠ [] ∧
      ∀ x ∈ dropped, w.area.LiveIn 1 x := by
  obtain ⟨a₀, events, a, hcreate, hrun, h⟩ := Area.Run.of_reaches
    { Area.tinyLayout with segments := 12 }
    [.allocate (some Log.warmData) 0, .allocate (some Log.warmNode) 0]
    (fun _ a => !a.isShort 0 0 && 1 < a.geometry.sections && a.isLive 1 0 = .ok true &&
      ((Volume.backend Empty.elim).collectSection (a.geometry.firstSegment 1) .background
        (World.mk a Collector.initial ⟨[], 1⟩ (Volume.oneOrphan 72 66))).toOption.map
        (fun x => (x.1.toOption, decide (x.2.area.isLive 1 0 = .ok false))) = some (some (), true))
    (by decide +kernel)
  simp only [Bool.and_eq_true, decide_eq_true_eq, Bool.not_eq_true'] at h
  obtain ⟨⟨⟨hshort, hsec⟩, hlive⟩, h⟩ := h
  have hreachable : a.Reachable := ⟨_, _, _, hcreate, hrun⟩
  obtain ⟨r, w', -, -, -, dropped, hcollect, -, -, -, hshed, -⟩ := collectSection_moves_nothing
    (w := ⟨a, Collector.initial, ⟨[], 1⟩, Volume.oneOrphan 72 66⟩)
    (Volume.backend_confined Empty.elim) hreachable (Volume.valid_oneOrphan 72 66) hsec
  rw [hcollect] at h
  obtain ⟨hwell, hdead⟩ := Prod.mk.inj (Option.some.inj h)
  have hwell : r.toOption = some () := hwell
  cases r with
  | error status => cases hwell
  | ok u =>
    have hdead : w'.area.isLive 1 0 = .ok false := of_decide_eq_true hdead
    refine ⟨_, w', dropped, hreachable, hshort, hlive, hcollect, hdead, hshed.area, ?_,
      hshed.inside⟩
    rintro rfl
    cases hshed.area
    cases hlive.symm.trans hdead

end Backend

end Reclaim
