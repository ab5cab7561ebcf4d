import Reclaim.Proofs.Area.Frame
import Reclaim.Proofs.Area.Sections

/-!
# Dropping blocks in any order

What dropping blocks leaves of an area is settled by which blocks are dropped: the records lose
these blocks and nothing else, the dirty lists follow the records (`Sound.classified`), and a
section stays staged while it holds a live block. `Pruned` says so of one area beside another,
dropping a block keeps it (`Pruned.drop`), and two areas that are pruned of the same blocks are
equal down to the words of their maps (`Pruned.unique`). So the order does not matter, nor how often
a block is dropped, nor what becomes of the single drops: `dropEach_perm`.
-/

namespace Reclaim

/-! ## What a drop leaves alone -/

/-- Two records that differ in their live blocks only. -/
structure Segment.Kin (s s' : Segment) : Prop where
  /-- As many blocks were live at the last checkpoint. -/
  saved : s'.saved = s.saved
  /-- The age is the same. -/
  mtime : s'.mtime = s.mtime
  /-- The log is the same. -/
  log : s'.log = s.log

/-- Two changes of the live blocks make one. -/
theorem Segment.Kin.trans {s₁ s₂ s₃ : Segment} (h : s₁.Kin s₂) (h' : s₂.Kin s₃) : s₁.Kin s₃ :=
  ⟨h'.saved.trans h.saved, h'.mtime.trans h.mtime, h'.log.trans h.log⟩

/-- What differs in the live blocks only does so both ways. -/
theorem Segment.Kin.symm {s s' : Segment} (h : s.Kin s') : s'.Kin s :=
  ⟨h.saved.symm, h.mtime.symm, h.log.symm⟩

/-- Well-formed records that differ in their live blocks at most and have the same ones are the
same. -/
theorem Segment.WellFormed.eq_of_isLive {s s' : Segment} {blocks : ℕ} (hs : s.WellFormed blocks)
    (hs' : s'.WellFormed blocks) (hkin : s.Kin s') (h : ∀ off, s'.isLive off = s.isLive off) :
    s' = s := by
  have hmap : s'.map = s.map :=
    hs.map.eq_of_contains hs'.map (hs'.map_size.trans hs.map_size.symm) h
  have hlive : s'.live = s.live := by rw [hs'.live_eq, hs.live_eq, hmap]
  obtain ⟨hsaved, hmtime, hlog⟩ := hkin
  cases s
  cases s'
  cases hmap
  cases hlive
  cases hsaved
  cases hmtime
  cases hlog
  rfl

/-- Dropping a block of a record changes its live blocks only. -/
theorem Segment.kin_of_drop {s s' : Segment} {off : ℕ} {changed : Bool}
    (h : s.drop off = .ok (changed, s')) : s.Kin s' := by
  rcases drop_cases h with ⟨-, rfl⟩ | ⟨-, map, rfl⟩
  · exact ⟨rfl, rfl, rfl⟩
  · exact ⟨rfl, rfl, rfl⟩

/-- Dropping a block of a table changes the live blocks of its records only. -/
theorem SegmentTable.kin_of_drop {t t' : SegmentTable} {seg off : ℕ} {changed : Bool}
    (h : t.drop seg off = .ok (changed, t')) :
    t'.oldest = t.oldest ∧ t'.newest = t.newest ∧ ∀ s, (t.record s).Kin (t'.record s) := by
  unfold drop at h
  obtain ⟨s, hget, h⟩ := Guarded.bind_eq_ok.mp h
  obtain ⟨hlt, rfl⟩ := get_eq_ok.mp hget
  obtain ⟨⟨dropped, s'⟩, hs, h⟩ := Guarded.bind_eq_ok.mp h
  dsimp only at h
  split_ifs at h
  · obtain ⟨live, -, h⟩ := Guarded.bind_eq_ok.mp h
    cases h
    refine ⟨rfl, rfl, fun k => ?_⟩
    show (t.record k).Kin ((t.put seg s').record k)
    rw [record_put hlt]
    split_ifs with hk
    · rw [hk]
      exact Segment.kin_of_drop hs
    · exact ⟨rfl, rfl, rfl⟩
  · cases h
    exact ⟨rfl, rfl, fun _ => ⟨rfl, rfl, rfl⟩⟩

namespace Area

variable {a a' : Area} {seg : ℕ}

/-- Classifying a segment takes back the staging of no section that holds a live block. -/
theorem Books.staged_of_classify (ha : a.Books) (hseg : seg < a.geometry.segments)
    (h : a.classify seg = .ok a') {k : ℕ} (hk : a.dirty.staged.contains k = true)
    (htotal : a.table.sectionTotal a.geometry k ≠ 0) : a'.dirty.staged.contains k = true := by
  unfold classify at h
  split_ifs at h
  · cases h
    exact hk
  · rw [SegmentTable.get_eq (ha.lt_size hseg), Guarded.ok_bind,
      SegmentTable.sectionLive_eq ha.geometry ha.table.size hseg, Guarded.ok_bind] at h
    dsimp only at h
    generalize hemptied : (if a.table.sectionTotal a.geometry (a.geometry.sectionOf seg) = 0 then
      some (a.geometry.sectionOf seg) else none) = emptied at h
    -- Only the section of the segment can have emptied, and then it holds no live block.
    have hlt : ∀ sec, emptied = some sec → sec < a.geometry.sections := by
      rintro sec rfl
      split_ifs at hemptied
      cases hemptied
      exact Geometry.sectionOf_lt ha.geometry hseg
    have hother : emptied ≠ some k := by
      rintro rfl
      split_ifs at hemptied with hzero
      cases hemptied
      exact htotal hzero
    have hstrike : ∀ {d d' : DirtyLists}, d.WellFormed a.geometry.segments a.geometry.sections →
        d.staged = a.dirty.staged →
        d.strike seg .dirty (a.table.record seg).log emptied = .ok d' →
        d'.staged.contains k = true := by
      intro d d' hd hsame hrun
      obtain ⟨d'', hspec, -, -, hstaged⟩ :=
        DirtyLists.strike_dirty_spec hd (a.table.record seg).log hseg hlt
      cases hspec.symm.trans hrun
      rw [hstaged, hsame]
      exact ⟨hk, hother⟩
    split_ifs at h
    · obtain ⟨d, henter, h⟩ := Guarded.bind_eq_ok.mp h
      obtain ⟨d', hrun, h⟩ := Guarded.bind_eq_ok.mp h
      cases h
      exact hstrike (DirtyLists.wellFormed_of_enter ha.dirty hseg henter)
        (DirtyLists.staged_of_enter henter) hrun
    · obtain ⟨d', henter, h⟩ := Guarded.bind_eq_ok.mp h
      cases h
      show d'.staged.contains k = true
      rw [DirtyLists.staged_of_enter henter]
      exact hk
    · obtain ⟨d', hrun, h⟩ := Guarded.bind_eq_ok.mp h
      cases h
      exact hstrike ha.dirty rfl hrun

/-! ## Pruned areas -/

/-- What is left of an area when blocks of it have been dropped. -/
structure Pruned (a : Area) (dropped : Address → Prop) (a' : Area) : Prop where
  /-- The area is sound. -/
  sound : a'.Sound
  /-- Nothing but the table and the dirty lists has changed. -/
  rest : a' = { a with table := a'.table, dirty := a'.dirty }
  /-- The older age bound is the same. -/
  oldest : a'.table.oldest = a.table.oldest
  /-- The newer age bound is the same. -/
  newest : a'.table.newest = a.table.newest
  /-- The records differ in their live blocks only. -/
  kin : ∀ s, (a.table.record s).Kin (a'.table.record s)
  /-- The dropped blocks are dead, and every other one is as before. -/
  live : ∀ x, a'.LiveAt x ↔ a.LiveAt x ∧ ¬dropped x
  /-- A section stays staged while it holds a live block. -/
  staged : ∀ sec, a'.dirty.staged.contains sec = true ↔
    a.dirty.staged.contains sec = true ∧ a'.table.sectionTotal a.geometry sec ≠ 0

variable {dropped : Address → Prop}

/-- The layout of a pruned area is that of the area. -/
theorem Pruned.geometry (h : a.Pruned dropped a') : a'.geometry = a.geometry := by
  rw [h.rest]

/-- An area of which nothing has been dropped. -/
theorem Pruned.refl (ha : a.Sound) : a.Pruned (fun _ => False) a where
  sound := ha
  rest := rfl
  oldest := rfl
  newest := rfl
  kin _ := ⟨rfl, rfl, rfl⟩
  live x := by simp
  staged sec := ⟨fun h => ⟨h, ha.staged_live sec h⟩, And.left⟩

/-- Dropping one more block. -/
theorem Pruned.drop {a₁ : Area} (h : a.Pruned dropped a₁) {addr : Address} {r : Outcome Unit}
    (hdrop : a₁.invalidate addr = .ok (r, a')) : a.Pruned (fun x => dropped x ∨ x = addr) a' := by
  obtain ⟨hsound, -, hdead⟩ := h.sound.invalidate_evolves hdrop
  have hlive : ∀ x, a'.LiveAt x ↔ a.LiveAt x ∧ ¬(dropped x ∨ x = addr) := by
    intro x
    rw [hdead, h.live, not_or, and_assoc]
  rcases invalidate_cases hdrop with hsame | ⟨seg, table, hseg, hrun, hclassify⟩
  · rw [hsame] at hsound hlive ⊢
    exact ⟨hsound, h.rest, h.oldest, h.newest, h.kin, hlive, h.staged⟩
  · obtain ⟨hlt, hoff, -⟩ := Geometry.eq_block_of_segmentOf? h.sound.geometry hseg
    obtain ⟨holdest, hnewest, hkin⟩ := SegmentTable.kin_of_drop hrun
    have hframed := framed_of_classify hclassify
    -- The block was live, so the area is sound but for the lists of its segment.
    obtain ⟨table', hrun', hdropped⟩ := SegmentTable.drop_spec h.sound.table hlt hoff
    obtain ⟨hwas, hsame⟩ := Prod.mk.inj (Except.ok.inj (hrun'.symm.trans hrun))
    rw [hsame] at hdropped
    have hbooks := (h.sound.exceptAt_dropped hdropped hwas).toBooks
    have hgeometry := h.geometry
    obtain ⟨dirty, rfl⟩ := classify_eq hclassify
    refine ⟨hsound, ?_, holdest.trans h.oldest, hnewest.trans h.newest,
      fun s => (h.kin s).trans (hkin s), hlive, fun sec => ⟨fun hstaged => ?_, ?_⟩⟩
    · rw [h.rest]
    · refine ⟨((h.staged sec).mp (hframed.staged sec hstaged)).1, ?_⟩
      rw [← hgeometry]
      exact hsound.staged_live sec hstaged
    · rintro ⟨hstaged, htotal⟩
      rw [← hgeometry] at htotal
      -- The section held a live block before, so it was staged still.
      have hbefore : a₁.table.sectionTotal a₁.geometry sec ≠ 0 :=
        fun hzero => htotal (hdropped.sectionTotal_eq_zero h.sound.geometry h.sound.table hlt hzero)
      rw [hgeometry] at hbefore
      exact hbooks.staged_of_classify hlt hclassify ((h.staged sec).mpr ⟨hstaged, hbefore⟩) htotal

/-- The records of areas pruned of the same blocks are the same. -/
theorem Pruned.record_eq {dropped' : Address → Prop} {a'' : Area} (h : a.Pruned dropped a')
    (h' : a.Pruned dropped' a'') (hsame : ∀ x, dropped x ↔ dropped' x) (seg : ℕ) :
    a''.table.record seg = a'.table.record seg := by
  have hwell := h.sound.table
  have hwell' := h'.sound.table
  rw [h.geometry] at hwell
  rw [h'.geometry] at hwell'
  rcases Nat.lt_or_ge seg a.geometry.segments with hseg | hseg
  · have hs := hwell.records seg hseg
    have hs' := hwell'.records seg hseg
    refine hs.eq_of_isLive hs' (((h.kin seg).symm).trans (h'.kin seg)) fun off => ?_
    by_cases hoff : off < a.geometry.segmentBlocks
    · -- The block is live in both areas or in none.
      have hlive : a''.LiveAt (a.geometry.startBlock seg + off) ↔
          a'.LiveAt (a.geometry.startBlock seg + off) := by
        rw [h'.live, h.live, hsame]
      have hiff := liveAt_block h.sound.geometry (h.geometry ▸ hseg) (h.geometry ▸ hoff)
      have hiff' := liveAt_block h'.sound.geometry (h'.geometry ▸ hseg) (h'.geometry ▸ hoff)
      rw [h.geometry] at hiff
      rw [h'.geometry, hlive, hiff] at hiff'
      exact Bool.eq_iff_iff.mpr hiff'.symm
    · rw [Bool.eq_iff_iff]
      exact ⟨fun hlive => absurd (Segment.lt_of_isLive hs' hlive) hoff,
        fun hlive => absurd (Segment.lt_of_isLive hs hlive) hoff⟩
  · rw [SegmentTable.record_of_le hwell hseg, SegmentTable.record_of_le hwell' hseg]

/-- Areas pruned of the same blocks are the same. -/
theorem Pruned.unique {dropped' : Address → Prop} {a'' : Area} (h : a.Pruned dropped a')
    (h' : a.Pruned dropped' a'') (hsame : ∀ x, dropped x ↔ dropped' x) : a'' = a' := by
  have hgeometry := h.geometry
  have hgeometry' := h'.geometry
  have hrecord := h.record_eq h' hsame
  have hwell := h.sound.table
  have hwell' := h'.sound.table
  have hlists := h.sound.dirty
  have hlists' := h'.sound.dirty
  rw [hgeometry] at hwell hlists
  rw [hgeometry'] at hwell' hlists'
  have htable : a''.table = a'.table :=
    hwell.eq_of_record hwell' hrecord (h'.oldest.trans h.oldest.symm)
      (h'.newest.trans h.newest.symm)
  have hused : ∀ seg, a''.isUsed seg = a'.isUsed seg := fun seg => by
    unfold isUsed
    rw [h'.rest, h.rest]
  have hopen : ∀ seg, a''.isOpen seg = a'.isOpen seg := fun seg => by
    unfold isOpen
    rw [h'.rest, h.rest]
  -- The lists follow the records, and the stagings the live blocks of the sections.
  have hdirty : a''.dirty = a'.dirty := by
    refine hlists.eq_of_contains hlists' (fun c seg => ?_) fun sec => ?_
    · rw [Bool.eq_iff_iff, h'.sound.classified seg c, h.sound.classified seg c, hused, hopen,
        hrecord, hgeometry, hgeometry']
    · rw [Bool.eq_iff_iff, h'.staged, h.staged, htable]
  rw [h'.rest, h.rest, htable, hdirty]

/-! ## Dropping the blocks of a list -/

/-- Drops the blocks at a list of addresses one after the other, whatever becomes of each. -/
def dropEach (a : Area) : List Address → Guarded Area
  | [] => return a
  | addr :: addrs => do
    let (_, a) ← a.invalidate addr
    a.dropEach addrs

/-- Dropping a list of blocks prunes the area of them. -/
theorem Sound.dropEach (ha : a.Sound) (addrs : List Address) :
    ∃ a', a.dropEach addrs = .ok a' ∧ a.Pruned (· ∈ addrs) a' := by
  -- What has been dropped already is gathered up along the list.
  have hfrom : ∀ (addrs : List Address) (dropped : Address → Prop) (a₁ : Area),
      a.Pruned dropped a₁ →
      ∃ a', a₁.dropEach addrs = .ok a' ∧ a.Pruned (fun x => dropped x ∨ x ∈ addrs) a' := by
    intro addrs
    induction addrs with
    | nil =>
      intro dropped a₁ h
      exact ⟨a₁, rfl, by simpa using h⟩
    | cons addr addrs ih =>
      intro dropped a₁ h
      obtain ⟨r, table, dirty, hdrop, -⟩ := h.sound.invalidate addr
      obtain ⟨a', hrest, hpruned⟩ := ih _ _ (h.drop hdrop)
      refine ⟨a', ?_, by simpa only [List.mem_cons, or_assoc] using hpruned⟩
      unfold Area.dropEach
      rw [hdrop, Guarded.ok_bind]
      exact hrest
  simpa using hfrom addrs _ a (Pruned.refl ha)

/-- What is left when the blocks of a list have been dropped. -/
theorem Sound.pruned_of_dropEach (ha : a.Sound) {addrs : List Address}
    (h : a.dropEach addrs = .ok a') : a.Pruned (· ∈ addrs) a' := by
  obtain ⟨a'', hrun, hpruned⟩ := ha.dropEach addrs
  cases hrun.symm.trans h
  exact hpruned

/-- Two lists of blocks are dropped one after the other. -/
theorem dropEach_append {a₁ : Area} {addrs : List Address} (addrs' : List Address) :
    ∀ {a : Area}, a.dropEach addrs = .ok a₁ →
      a.dropEach (addrs ++ addrs') = a₁.dropEach addrs' := by
  induction addrs with
  | nil =>
    intro a h
    cases h
    rfl
  | cons addr addrs ih =>
    intro a h
    unfold Area.dropEach at h
    obtain ⟨⟨r, a₂⟩, hdrop, hrest⟩ := Guarded.bind_eq_ok.mp h
    rw [List.cons_append]
    show (a.invalidate addr >>= fun p => p.2.dropEach (addrs ++ addrs')) = _
    rw [hdrop, Guarded.ok_bind, ih hrest]

/-- What is left depends on the set of dropped blocks alone. -/
theorem Sound.dropEach_congr (ha : a.Sound) {addrs addrs' : List Address}
    (h : ∀ x, x ∈ addrs ↔ x ∈ addrs') : a.dropEach addrs' = a.dropEach addrs := by
  obtain ⟨a', hrun, hpruned⟩ := ha.dropEach addrs
  obtain ⟨a'', hrun', hpruned'⟩ := ha.dropEach addrs'
  rw [hrun, hrun', hpruned.unique hpruned' h]

/-- Blocks of an area that commands have led to can be dropped in any order: each order succeeds,
and all of them lead to the same area. -/
theorem dropEach_perm (h : a.Reachable) {addrs addrs' : List Address} (hperm : addrs.Perm addrs') :
    ∃ a', a.dropEach addrs = .ok a' ∧ a.dropEach addrs' = .ok a' := by
  obtain ⟨a', hrun, -⟩ := h.sound.dropEach addrs
  refine ⟨a', hrun, ?_⟩
  rw [h.sound.dropEach_congr fun x => hperm.mem_iff, hrun]

/-- A staged section is emptied in two orders, among addresses that are reserved, dead or of no
block, and one that is given twice. -/
theorem dropEach_perm_staged : ∃ a a' : Area, a.Reachable ∧ a.dirty.staged.contains 0 = true ∧
    a.dropEach [65, Address.null, 66, 64, 65, 999, 67] = .ok a' ∧
    a.dropEach [999, 67, 65, 66, Address.null, 65, 64] = .ok a' ∧
    a'.dirty.staged.contains 0 = false ∧ a'.classOf 0 = .prefree := by
  obtain ⟨a₀, events, a, hcreate, hrun, h⟩ := Run.of_reaches pairedLayout
    [.allocate (some Log.hotData) 5, .allocate (some Log.hotData) 6, .allocate (some Log.hotData) 7,
      .allocate (some Log.hotData) 8, .invalidate 64, .search .background none .wholeSection]
    (fun _ a => a.dirty.staged.contains 0 &&
      match a.dropEach [65, Address.null, 66, 64, 65, 999, 67] with
      | .ok a' => !a'.dirty.staged.contains 0 && a'.classOf 0 = .prefree
      | .error _ => false) (by decide +kernel)
  have hreachable : a.Reachable := ⟨pairedLayout, a₀, events, hcreate, hrun⟩
  obtain ⟨a', hfirst, hsecond⟩ := dropEach_perm hreachable
    (by decide : List.Perm [65, Address.null, 66, 64, 65, 999, 67]
      [999, 67, 65, 66, Address.null, 65, 64])
  rw [hfirst] at h
  simp only [Bool.and_eq_true, decide_eq_true_eq, Bool.not_eq_true'] at h
  exact ⟨a, a', hreachable, h.1, hfirst, hsecond, h.2.1, h.2.2⟩

end Area
end Reclaim
