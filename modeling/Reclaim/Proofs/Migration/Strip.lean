import Reclaim.Proofs.Area.Evacuation
import Reclaim.Proofs.Area.Runs
import Reclaim.Proofs.Migration.Tandem
import Reclaim.Proofs.Volume.Ledger
import Reclaim.Proofs.Volume.Writing

/-!
# What a pass leaves of its section

A foreground pass over a data segment ends well only if the segment has become empty, and nothing is
written into a section that is in use and closed, so what is empty stays empty while the rest of
the section is collected (`Backend.collectSection_strips`). A pass over a node segment ends well
whatever it has left behind.

A section whose segments in use are all data segments is therefore empty after a foreground pass
that ends well: its segments wait for a checkpoint, it is not staged, and a second pass finds
nothing to ask the filesystem for (`Backend.collectSection_empties`).
-/

namespace Reclaim

variable {σ : Type}

/-- The world after a pass that ends well and does nothing but count itself. -/
def World.passed (w : World σ) : World σ :=
  { w with
    collector := { w.collector with
      tally := { w.collector.tally with
        passes := w.collector.tally.passes + 1
        sectionsCollected := w.collector.tally.sectionsCollected + 1
        lastPassMicros := 0 } } }

namespace Backend

variable {b : Backend σ} {w w' : World σ}

/-! ## Passes strip their sections -/

/-- Moving the live blocks of a data segment ends well in the foreground only if the segment has
become empty. -/
theorem collectData_empties {sum : SummaryBlock} {seg : ℕ}
    (h : b.collectData sum seg .foreground w = .ok (.ok (), w')) :
    (w'.area.table.record seg).live = 0 := by
  unfold collectData at h
  obtain ⟨start, w₁, hstart, h₁⟩ := Act.bind_eq_ok.mp h
  obtain ⟨result, w₂, hresult, h₂⟩ := Act.bind_eq_ok.mp h₁
  cases result with
  | error status => cases h₂
  | ok _ =>
    obtain ⟨live, w₃, hasked, h₃⟩ := Act.bind_eq_ok.mp h₂
    obtain ⟨hlive, hw₃⟩ := Act.askArea_eq_ok.mp hasked
    subst w₃
    split_ifs at h₃ with hzero
    · cases h₃
      rw [← Area.liveBlocks_eq_ok hlive, hzero]
    · cases h₃

/-- A foreground pass over a segment of a settled section that ends well has emptied the segment,
unless it is a node segment. -/
theorem collectSegment_strips (hb : ∀ a : Area, b.Preserves fun w => a.Written w.area)
    (hw : w.area.Sound) {seg : ℕ}
    (hsec : w.area.Settled (w.area.geometry.sectionOf seg))
    (h : b.collectSegment .foreground seg w = .ok (.ok (), w')) :
    w'.area.isNodeSegment seg = true ∨ (w'.area.table.record seg).live = 0 := by
  unfold collectSegment at h
  obtain ⟨sum, w₁, hsum, h₁⟩ := Act.bind_eq_ok.mp h
  obtain ⟨hsound₁, hevolves₁⟩ := ((hb w.area).summary seg .refl hsum).evolves hw
  cases sum with
  | error status => cases h₁
  | ok sum =>
    dsimp only at h₁
    obtain ⟨_, w₂, hcount, h₂⟩ := Act.bind_eq_ok.mp h₁
    have harea : w₂.area = w₁.area := by
      cases hcount
      rfl
    obtain ⟨segment, w₃, hasked, h₃⟩ := Act.bind_eq_ok.mp h₂
    obtain ⟨hget, hw₃⟩ := Act.askArea_eq_ok.mp hasked
    subst w₃
    obtain ⟨-, hsegment⟩ := SegmentTable.get_eq_ok.mp hget
    rw [← harea] at hsound₁ hevolves₁
    split_ifs at h₃ with hnode
    · -- The segment stays a node segment while its blocks are moved.
      left
      have hsettled := hevolves₁.settled _ hsec
      rw [← hevolves₁.geometry] at hsettled
      obtain ⟨-, hevolves⟩ :=
        ((hb w₂.area).collectNodes (Act.lasting_area _) _ _ _ .refl h₃).evolves hsound₁
      rw [hevolves.isNodeSegment_eq hsettled]
      unfold Area.isNodeSegment
      rw [hsegment]
      exact hnode
    · exact Or.inr (collectData_empties h₃)

/-- A foreground pass over segments of a settled section that ends well has emptied those of them
that are no node segments. -/
theorem collectSegments_strips (hb : ∀ a : Area, b.Preserves fun w => a.Written w.area) {sec : ℕ}
    {segs : List ℕ} :
    ∀ {w : World σ}, w.area.Sound → w.area.Settled sec →
      (∀ seg ∈ segs, w.area.geometry.sectionOf seg = sec) →
      b.collectSegments .foreground segs w = .ok (.ok (), w') →
      w'.area.Sound ∧ w.area.Evolves w'.area ∧ ∀ seg ∈ segs,
        w'.area.isNodeSegment seg = true ∨ (w'.area.table.record seg).live = 0 := by
  induction segs with
  | nil =>
    intro w hw _ _ h
    cases h
    exact ⟨hw, .refl _, fun _ hseg => absurd hseg List.not_mem_nil⟩
  | cons seg segs ih =>
    intro w hw hsettled hsegs h
    have hsec := hsegs seg List.mem_cons_self
    have hrest := fun s hs => hsegs s (List.mem_cons_of_mem _ hs)
    -- What the first segment has become it stays while the others are collected.
    have hstays : ∀ w₁ : World σ, w.area.Evolves w₁.area → w₁.area.Sound →
        w₁.area.isNodeSegment seg = true ∨ (w₁.area.table.record seg).live = 0 →
        b.collectSegments .foreground segs w₁ = .ok (.ok (), w') →
        w'.area.Sound ∧ w.area.Evolves w'.area ∧ ∀ s ∈ seg :: segs,
          w'.area.isNodeSegment s = true ∨ (w'.area.table.record s).live = 0 := by
      intro w₁ hevolves hsound hfirst hrun
      have hsettled₁ := hevolves.settled sec hsettled
      obtain ⟨hsound', hevolves', hstripped⟩ := ih hsound hsettled₁
        (fun s hs => by rw [hevolves.geometry]; exact hrest s hs) hrun
      refine ⟨hsound', hevolves.trans hevolves', fun s hs => ?_⟩
      rcases List.mem_cons.mp hs with rfl | hs
      · rw [← hsec, ← hevolves.geometry] at hsettled₁
        rw [hevolves'.isNodeSegment_eq hsettled₁]
        exact hfirst.imp_right (hevolves'.dead hsound hsound' hsettled₁)
      · exact hstripped s hs
    -- A segment that is empty already is not collected.
    unfold collectSegments at h
    obtain ⟨live, w₁, hasked, h₁⟩ := Act.bind_eq_ok.mp h
    obtain ⟨hlive, hw₁⟩ := Act.askArea_eq_ok.mp hasked
    subst w₁
    split_ifs at h₁ with hzero
    · refine hstays w (.refl _) hw (Or.inr ?_) h₁
      rw [← Area.liveBlocks_eq_ok hlive, hzero]
    · obtain ⟨result, w₂, hcollect, h₂⟩ := Act.bind_eq_ok.mp h₁
      obtain ⟨hsound, hevolves⟩ :=
        ((hb w.area).collectSegment (Act.lasting_area _) _ _ .refl hcollect).evolves hw
      cases result with
      | error status => cases h₂
      | ok _ =>
        refine hstays w₂ hevolves hsound ?_ h₂
        exact collectSegment_strips hb hw (by rw [hsec]; exact hsettled) hcollect

/-- A foreground pass over a settled section that ends well has stripped the section. -/
theorem collectSection_strips (hb : ∀ a : Area, b.Preserves fun w => a.Written w.area)
    (hw : w.area.Sound) {start : ℕ}
    (hsettled : w.area.Settled (w.area.geometry.sectionOf start))
    (h : b.collectSection start .foreground w = .ok (.ok (), w')) :
    w'.area.Sound ∧ w.area.Evolves w'.area ∧
      w'.area.Stripped (w.area.geometry.sectionOf start) := by
  have hg := hw.geometry
  unfold collectSection at h
  obtain ⟨g, w₁, hread, h₁⟩ := Act.bind_eq_ok.mp h
  cases hread
  dsimp only at h₁
  split_ifs at h₁ with hrefused
  · cases h₁
  · rw [not_or, Nat.not_le, not_not] at hrefused
    -- An aligned start is the first segment of its section.
    have hsegs : List.range' start w.area.geometry.segmentsPerSection =
        w.area.geometry.sectionSegments (w.area.geometry.sectionOf start) := by
      unfold Geometry.sectionSegments
      rw [← Geometry.sub_mod_eq_firstSegment, hrefused.2, Nat.sub_zero]
    rw [hsegs] at h₁
    obtain ⟨result, w₂, hcollect, h₂⟩ := Act.bind_eq_ok.mp h₁
    cases h₂
    obtain ⟨hsound, hevolves, hstripped⟩ := collectSegments_strips hb hw hsettled
      (fun seg hseg => (Geometry.mem_sectionSegments hg).mp hseg) hcollect
    refine ⟨hsound, hevolves, hevolves.settled _ hsettled, fun seg hseg hdata => ?_⟩
    dsimp only at hseg hdata ⊢
    rw [hevolves.geometry] at hseg
    rcases hstripped seg ((Geometry.mem_sectionSegments hg).mpr hseg) with hnode | hdead
    · rw [hdata] at hnode
      cases hnode
    · exact hdead

/-! ## Sections of data segments -/

/-- A pass over segments that hold no live block asks the filesystem for nothing. -/
theorem collectSegments_of_dead (b : Backend σ) (trigger : Trigger) : ∀ {segs : List ℕ},
    (∀ seg ∈ segs, seg < w.area.table.records.size ∧ (w.area.table.record seg).live = 0) →
      b.collectSegments trigger segs w = .ok (.ok (), w)
  | [], _ => rfl
  | seg :: segs, h => by
    obtain ⟨hlt, hdead⟩ := h seg List.mem_cons_self
    have hlive : w.area.liveBlocks seg false = .ok 0 := by
      unfold Area.liveBlocks SegmentTable.liveBlocks
      rw [if_neg Bool.false_ne_true, SegmentTable.get_eq hlt, Guarded.ok_bind, hdead]
      rfl
    have hrest := collectSegments_of_dead b trigger fun s hs => h s (List.mem_cons_of_mem _ hs)
    unfold collectSegments
    refine Act.bind_eq_ok.mpr ⟨0, w, Act.askArea_eq_ok.mpr ⟨hlive, rfl⟩, ?_⟩
    rw [if_pos rfl]
    exact hrest

/-- A pass over a section that holds no live block asks the filesystem for nothing, whatever the
filesystem, and ends well. -/
theorem collectSection_of_dead (b : Backend σ) (trigger : Trigger) (hw : w.area.Sound) {sec : ℕ}
    (hsec : sec < w.area.geometry.sections)
    (hdead : ∀ seg, w.area.geometry.sectionOf seg = sec → (w.area.table.record seg).live = 0) :
    b.collectSection (w.area.geometry.firstSegment sec) trigger w = .ok (.ok (), w.passed) := by
  have hg := hw.geometry
  have hsegs : ∀ seg ∈ w.area.geometry.sectionSegments sec,
      seg < w.area.table.records.size ∧ (w.area.table.record seg).live = 0 := by
    intro seg hseg
    have hin := (Geometry.mem_sectionSegments hg).mp hseg
    exact ⟨hw.lt_size (Geometry.lt_segments_of_sectionOf hg hsec hin), hdead seg hin⟩
  have hallowed : ¬(w.area.geometry.segments ≤ w.area.geometry.firstSegment sec ∨
      w.area.geometry.firstSegment sec % w.area.geometry.segmentsPerSection ≠ 0) := by
    rw [not_or, Nat.not_le, not_not]
    exact ⟨Geometry.firstSegment_lt hg hsec, Nat.mul_mod_left _ _⟩
  unfold collectSection
  refine Act.bind_eq_ok.mpr ⟨w.area.geometry, w, rfl, ?_⟩
  rw [if_neg hallowed]
  exact Act.bind_eq_ok.mpr ⟨.ok (), w, collectSegments_of_dead b trigger hsegs, rfl⟩

/-- A pass that is not refused is made over a section of the area. -/
theorem lt_sections_of_collectSection (hg : w.area.geometry.Valid) {trigger : Trigger} {sec : ℕ}
    (h : b.collectSection (w.area.geometry.firstSegment sec) trigger w = .ok (.ok (), w')) :
    sec < w.area.geometry.sections := by
  unfold collectSection at h
  obtain ⟨g, w₁, hread, h₁⟩ := Act.bind_eq_ok.mp h
  cases hread
  dsimp only at h₁
  split_ifs at h₁ with hrefused
  · cases h₁
  · rw [not_or, Nat.not_le] at hrefused
    have hlt := Geometry.sectionOf_lt hg hrefused.1
    rwa [Geometry.sectionOf_firstSegment hg] at hlt

/-- A foreground pass that ends well leaves no live block in a section that no log writes into and
whose segments in use are all data segments. -/
theorem collectSection_dead (hb : ∀ a : Area, b.Preserves fun w => a.Written w.area)
    (hw : w.area.Sound) {sec : ℕ} (hclosed : w.area.isOpenSection sec = false)
    (hdata : ∀ seg, w.area.geometry.sectionOf seg = sec → w.area.isUsed seg = true →
      w.area.isNodeSegment seg = false)
    (h : b.collectSection (w.area.geometry.firstSegment sec) .foreground w = .ok (.ok (), w')) :
    w'.area.Sound ∧ w'.area.geometry = w.area.geometry ∧ w'.area.isOpenSection sec = false ∧
      ∀ seg, w.area.geometry.sectionOf seg = sec → (w'.area.table.record seg).live = 0 := by
  have hg := hw.geometry
  by_cases hused : w.area.free.usedSections.contains sec = true
  · have hsettled : w.area.Settled sec := ⟨hused, hclosed⟩
    have hfirst := Geometry.sectionOf_firstSegment hg sec
    obtain ⟨hw', hevolves, hstripped⟩ := collectSection_strips hb hw
      (by rw [hfirst]; exact hsettled) h
    rw [hfirst] at hstripped
    refine ⟨hw', hevolves.geometry, hstripped.settled.2, fun seg hseg => ?_⟩
    subst hseg
    cases hin : w.area.isUsed seg with
    | true =>
      refine hstripped.data_dead seg (by rw [hevolves.geometry]) ?_
      rw [hevolves.isNodeSegment_eq hsettled]
      exact hdata seg rfl hin
    | false => exact hevolves.dead hw hw' hsettled (hw.unused_dead seg hin)
  · -- Nothing is live in a section that is not in use, so the pass does nothing.
    have hdead : ∀ seg, w.area.geometry.sectionOf seg = sec →
        (w.area.table.record seg).live = 0 := by
      intro seg hseg
      refine hw.unused_dead seg ?_
      by_contra hin
      exact hused ((hw.free.section_used sec).mpr ⟨seg, hseg, Bool.eq_true_of_not_eq_false hin⟩)
    have hsec := lt_sections_of_collectSection hg h
    rw [collectSection_of_dead b .foreground hw hsec hdead] at h
    cases h
    exact ⟨hw, rfl, hclosed, hdead⟩

/-- A foreground pass that ends well, begun in a reachable area over a section that no log writes
into and whose segments in use are all data segments, has emptied the section: no segment of it
holds a live block, those in use wait for a checkpoint, and the section is not staged. A second pass
asks the filesystem for nothing, whatever the filesystem, ends well, and changes nothing but the
count of the passes, of those that ended well, and the length of the last one. -/
theorem collectSection_empties (hb : ∀ a : Area, b.Preserves fun w => a.Written w.area)
    (harea : w.area.Reachable) {sec : ℕ} (hclosed : w.area.isOpenSection sec = false)
    (hdata : ∀ seg, w.area.geometry.sectionOf seg = sec → w.area.isUsed seg = true →
      w.area.isNodeSegment seg = false)
    (h : b.collectSection (w.area.geometry.firstSegment sec) .foreground w = .ok (.ok (), w')) :
    w'.area.geometry = w.area.geometry ∧
      (∀ seg, w.area.geometry.sectionOf seg = sec → (w'.area.table.record seg).live = 0 ∧
        (w'.area.isUsed seg = true → w'.area.dirty.contains .prefree seg = true)) ∧
      w'.area.dirty.staged.contains sec = false ∧
      ∀ (b' : Backend σ) (trigger : Trigger),
        b'.collectSection (w.area.geometry.firstSegment sec) trigger w' =
          .ok (.ok (), w'.passed) := by
  have hsec := lt_sections_of_collectSection harea.sound.geometry h
  obtain ⟨hw', hgeometry, hclosed', hdead⟩ := collectSection_dead hb harea.sound hclosed hdata h
  refine ⟨hgeometry, fun seg hseg => ⟨hdead seg hseg, fun hin => ?_⟩, ?_, fun b' trigger => ?_⟩
  · have hshut : w'.area.isOpen seg = false := by
      refine Area.isOpen_eq_false_of_section ?_
      rw [hgeometry, hseg]
      exact hclosed'
    exact (hw'.classified seg .prefree).mpr ⟨hin, hshut, hdead seg hseg⟩
  · -- A staged section would hold a live block.
    by_contra hstaged
    refine hw'.staged_live sec (Bool.eq_true_of_not_eq_false hstaged) ?_
    rw [SegmentTable.sectionTotal_eq_zero_iff hw'.geometry, hgeometry]
    exact hdead
  · rw [← hgeometry] at hsec hdead ⊢
    exact collectSection_of_dead b' trigger hw' hsec hdead

/-- A world of one file of one block, which is the second block of segment 2. -/
def secondBlock (a : Area) : World (Volume Empty Unit) :=
  ⟨a, Collector.initial, ⟨[], 1⟩, { Volume.oneFile 80 69 with
    summaries := [(2, ⟨.data, #[{}, ⟨1, 0, 0⟩]⟩)] }⟩

/-- A section of two data segments, one of which is empty already, is emptied by moving the one
block of a file out of it. -/
theorem collectSection_empties_moved : ∃ w w' : World (Volume Empty Unit), w.area.Reachable ∧
    w.area.isOpenSection 1 = false ∧ (w.area.table.record 2).live = 1 ∧
    (Volume.backend Empty.elim).collectSection (w.area.geometry.firstSegment 1) .foreground w =
      .ok (.ok (), w') ∧
    (∀ seg ∈ [2, 3], (w'.area.table.record seg).live = 0 ∧
      w'.area.dirty.contains .prefree seg = true) ∧
    w'.area.dirty.staged.contains 1 = false ∧
    (Volume.backend Empty.elim).collectSection (w.area.geometry.firstSegment 1) .foreground w' =
      .ok (.ok (), w'.passed) := by
  obtain ⟨a₀, events, a, hcreate, hrun, h⟩ := Area.Run.of_reaches
    { Area.tinyLayout with segmentsPerSection := 2, segments := 14 }
    (List.replicate 4 (.allocate (some Log.warmData) 0) ++ [.allocate (some Log.warmNode) 0,
      .invalidate 68, .invalidate 70, .invalidate 71])
    (fun _ a => a.geometry.segmentsPerSection = 2 && !a.isOpenSection 1 &&
      (a.table.record 2).live = 1 && ([2, 3].all fun seg => !a.isNodeSegment seg) &&
      ((Volume.backend Empty.elim).collectSection (a.geometry.firstSegment 1) .foreground
        (secondBlock a)).toOption.map
        (fun x => (x.1.toOption, [2, 3].all x.2.area.isUsed)) = some (some (), true))
    (by decide +kernel)
  simp only [Bool.and_eq_true, decide_eq_true_eq, List.all_eq_true, Bool.not_eq_true'] at h
  obtain ⟨⟨⟨⟨hunit, hclosed⟩, hone⟩, hdata⟩, hend⟩ := h
  cases hcollect : (Volume.backend Empty.elim).collectSection (a.geometry.firstSegment 1)
    .foreground (secondBlock a) with
  | error t =>
    rw [hcollect] at hend
    cases hend
  | ok x =>
    obtain ⟨result, w'⟩ := x
    rw [hcollect] at hend
    obtain ⟨hwell, hused⟩ := Prod.mk.inj (Option.some.inj hend)
    have hwell : result.toOption = some () := hwell
    cases result with
    | error status => cases hwell
    | ok u =>
      have hreachable : a.Reachable := ⟨_, _, _, hcreate, hrun⟩
      have hpair : ∀ seg, a.geometry.sectionOf seg = 1 ↔ seg ∈ [2, 3] := by
        intro seg
        unfold Geometry.sectionOf
        rw [hunit, List.mem_pair]
        omega
      obtain ⟨-, hempty, hunstaged, hsecond⟩ := collectSection_empties
        (w := secondBlock a) (Volume.backend_writesOnly nofun).writes hreachable
        hclosed (fun seg hseg _ => hdata seg ((hpair seg).mp hseg)) hcollect
      refine ⟨secondBlock a, w', hreachable, hclosed, hone, hcollect, fun seg hseg => ?_,
        hunstaged, hsecond _ .foreground⟩
      obtain ⟨hdead, hprefree⟩ := hempty seg ((hpair seg).mpr hseg)
      exact ⟨hdead, hprefree (List.all_eq_true.mp hused seg hseg)⟩

end Backend

end Reclaim
