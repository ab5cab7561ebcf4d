import Reclaim.Area.Space
import Reclaim.Proofs.Area.Checkpoint
import Reclaim.Proofs.Victim.Search

/-!
# Sections that have been collected

A section that may be collected is in use and closed to the logs, so nothing is written into it any
more. Once its data segments hold no live block (`Stripped`) they never do again, and a checkpoint
frees the section exactly when its node segments hold none either (`Checkpointed.free_iff`).
A checkpoint raises the number of free sections by the number of those that it frees
(`Checkpointed.freeSections_eq`).

`Counted` says of a list of sections that each of them is stripped and that only those with node
segments are on the list more than once: a section without one holds no live block once it is
stripped, so it is not chosen again.
-/

namespace Reclaim.Area

variable {a a' : Area} {seg sec : ℕ}

/-- Whether a segment is filed under a log of nodes. -/
def isNodeSegment (a : Area) (seg : ℕ) : Bool := (a.table.record seg).log.any Log.isNode

/-- Whether a section has a node segment. -/
def HasNodes (a : Area) (sec : ℕ) : Prop :=
  ∃ seg, a.geometry.sectionOf seg = sec ∧ a.isNodeSegment seg = true

/-- Whether the node segments of a section hold no live block. -/
def NodesDead (a : Area) (sec : ℕ) : Prop :=
  ∀ seg, a.geometry.sectionOf seg = sec → a.isNodeSegment seg = true →
    (a.table.record seg).live = 0

/-- A section that is in use and closed, and whose other segments hold no live block. -/
structure Stripped (a : Area) (sec : ℕ) : Prop where
  /-- The section is in use, and no log writes into it. -/
  settled : a.Settled sec
  /-- The segments that are filed under no log of nodes hold no live block. -/
  data_dead : ∀ seg, a.geometry.sectionOf seg = sec → a.isNodeSegment seg = false →
    (a.table.record seg).live = 0

/-- The live blocks of a segment are those that its record counts. -/
theorem liveBlocks_eq_ok {n : ℕ} (h : a.liveBlocks seg false = .ok n) :
    n = (a.table.record seg).live := by
  obtain ⟨s, hget, hlive⟩ := Guarded.bind_eq_ok.mp h
  obtain ⟨-, rfl⟩ := SegmentTable.get_eq_ok.mp hget
  cases hlive
  rfl

/-! ## What becomes of settled sections -/

/-- A section that may be collected is in use and closed. -/
theorem Victim.settled (h : a.Victim sec) (ha : a.Books) : a.Settled sec := by
  refine ⟨?_, h.closed⟩
  by_contra hfree
  refine h.live ((SegmentTable.sectionTotal_eq_zero_iff ha.geometry).mpr fun seg hseg => ?_)
  refine ha.unused_dead seg ?_
  rw [← Bool.not_eq_true]
  exact fun hused => hfree ((ha.free.section_used sec).mpr ⟨seg, hseg, hused⟩)

/-- A segment of a settled section that holds no live block gets none. -/
theorem Evolves.dead (h : a.Evolves a') (ha : a.Sound) (ha' : a'.Sound)
    (hsec : a.Settled (a.geometry.sectionOf seg)) (hdead : (a.table.record seg).live = 0) :
    (a'.table.record seg).live = 0 := by
  rcases Nat.lt_or_ge seg a.geometry.segments with hseg | hseg
  · have hseg' : seg < a'.geometry.segments := by
      rw [h.geometry]
      exact hseg
    rw [Segment.live_eq_zero_iff (ha'.table.records seg hseg')]
    intro off
    by_contra hlive
    rw [Bool.not_eq_false] at hlive
    have hoff := Segment.lt_of_isLive (ha'.table.records seg hseg') hlive
    have hat := (liveAt_block ha'.geometry hseg' hoff).mpr hlive
    rw [h.geometry] at hat hoff
    -- A live block of the segment would have been live all along.
    have hold := h.shrinks _ seg (Geometry.segmentOf?_block ha.geometry hseg hoff) hsec hat
    exact ha.live_ne_zero ((liveAt_block ha.geometry hseg hoff).mp hold) hdead
  · rw [SegmentTable.record_of_le ha'.table (by rw [h.geometry]; exact hseg)]
    rfl

/-- The segments of a settled section stay node segments or not. -/
theorem Evolves.isNodeSegment_eq (h : a.Evolves a') (hsec : a.Settled (a.geometry.sectionOf seg)) :
    a'.isNodeSegment seg = a.isNodeSegment seg := by
  unfold isNodeSegment
  rw [h.log seg hsec]

/-- A settled section has node segments as before. -/
theorem Evolves.hasNodes_iff (h : a.Evolves a') (hsec : a.Settled sec) :
    a'.HasNodes sec ↔ a.HasNodes sec := by
  unfold HasNodes
  rw [h.geometry]
  refine exists_congr fun seg => and_congr_right ?_
  rintro rfl
  rw [h.isNodeSegment_eq hsec]

/-- A stripped section stays stripped. -/
theorem Stripped.evolves (hs : a.Stripped sec) (h : a.Evolves a') (ha : a.Sound) (ha' : a'.Sound) :
    a'.Stripped sec where
  settled := h.settled sec hs.settled
  data_dead seg hseg hdata := by
    rw [h.geometry] at hseg
    subst hseg
    rw [h.isNodeSegment_eq hs.settled] at hdata
    exact h.dead ha ha' hs.settled (hs.data_dead seg rfl hdata)

/-- A stripped section that may be collected again has a node segment. -/
theorem Stripped.hasNodes (hs : a.Stripped sec) (ha : a.Sound) (hvictim : a.Victim sec) :
    a.HasNodes sec := by
  by_contra hnone
  refine hvictim.live ((SegmentTable.sectionTotal_eq_zero_iff ha.geometry).mpr fun seg hseg => ?_)
  refine hs.data_dead seg hseg ?_
  rw [← Bool.not_eq_true]
  exact fun hnode => hnone ⟨seg, hseg, hnode⟩

/-! ## Lists of collected sections -/

/-- A list of stripped sections on which only those with node segments may be twice. -/
structure Counted (a : Area) (secs : List ℕ) : Prop where
  /-- Each section is stripped. -/
  stripped : ∀ sec ∈ secs, a.Stripped sec
  /-- A section without node segments is on the list once. -/
  once : ∀ sec ∈ secs, ¬a.HasNodes sec → secs.count sec = 1

variable {secs : List ℕ}

/-- Nothing has been collected. -/
theorem Counted.nil (a : Area) : a.Counted [] :=
  ⟨fun _ h => absurd h List.not_mem_nil, fun _ h => absurd h List.not_mem_nil⟩

/-- What is on the list stays there. -/
theorem Counted.evolves (hs : a.Counted secs) (h : a.Evolves a') (ha : a.Sound) (ha' : a'.Sound) :
    a'.Counted secs where
  stripped sec hsec := (hs.stripped sec hsec).evolves h ha ha'
  once sec hsec hnone := by
    rw [h.hasNodes_iff (hs.stripped sec hsec).settled] at hnone
    exact hs.once sec hsec hnone

/-- A section that could be collected is put on the list when it has been stripped. -/
theorem Counted.concat (hs : a.Counted secs) (h : a.Evolves a') (ha : a.Sound) (ha' : a'.Sound)
    (hvictim : a.Victim sec) (hstripped : a'.Stripped sec) : a'.Counted (secs ++ [sec]) := by
  have hs' := hs.evolves h ha ha'
  -- A section that was on the list and has no node segment was not to be collected again.
  have hnew : ∀ s, ¬a'.HasNodes s → s ∈ secs → s ≠ sec := by
    rintro s hnone hin rfl
    have hold := hs.stripped s hin
    exact hnone ((h.hasNodes_iff hold.settled).mpr (hold.hasNodes ha hvictim))
  constructor
  · intro s hin
    rw [List.mem_append, List.mem_singleton] at hin
    rcases hin with hin | rfl
    · exact hs'.stripped s hin
    · exact hstripped
  · intro s hin hnone
    rw [List.mem_append, List.mem_singleton] at hin
    rw [List.count_append, List.count_singleton]
    rcases hin with hin | rfl
    · rw [hs'.once s hin hnone, if_neg]
      rw [beq_iff_eq]
      exact fun heq => hnew s hnone hin heq.symm
    · rw [List.count_eq_zero.mpr fun hin => hnew s hnone hin rfl, if_pos (beq_self_eq_true s)]

/-! ## Checkpoints -/

/-- A checkpoint frees a stripped section exactly when its node segments hold no live block. -/
theorem Checkpointed.free_iff {n : ℕ} (h : a.Checkpointed n a') (ha : a.Sound)
    (hs : a.Stripped sec) : a'.free.usedSections.contains sec = false ↔ a.NodesDead sec := by
  have hclosed : ∀ seg, a.geometry.sectionOf seg = sec → a.isOpen seg = false := by
    rintro seg rfl
    exact isOpen_eq_false_of_section hs.settled.2
  have hkept : a'.free.usedSections.contains sec = true ↔
      ∃ seg, a.geometry.sectionOf seg = sec ∧ a'.isUsed seg = true := by
    rw [h.sound.free.section_used, h.geometry]
    rfl
  rw [← Bool.not_eq_true, hkept]
  constructor
  · -- A node segment with a live block is not prefree, so it stays in use and its section with it.
    intro hfree seg hseg hnode
    by_contra hlive
    refine hfree ⟨seg, hseg, (h.used seg).mpr ⟨ha.used_of_live hlive, ?_⟩⟩
    rw [← Bool.not_eq_true]
    exact fun hprefree => hlive ((ha.classified seg .prefree).mp hprefree).2.2
  · -- A segment left in use would be closed and dead, and a checkpoint frees such segments.
    rintro hdead ⟨seg, hseg, hused'⟩
    obtain ⟨hused, hprefree⟩ := (h.used seg).mp hused'
    rw [← Bool.not_eq_true] at hprefree
    refine hprefree ((ha.classified seg .prefree).mpr ⟨hused, hclosed seg hseg, ?_⟩)
    show (a.table.record seg).live = 0
    cases hnode : a.isNodeSegment seg with
    | true => exact hdead seg hseg hnode
    | false => exact hs.data_dead seg hseg hnode

/-- The sections that are in use in an area and free in another. -/
def freedSections (a a' : Area) : Finset ℕ :=
  a.free.usedSections.toFinset \ a'.free.usedSections.toFinset

/-- A section has been freed when it was in use and is free. -/
@[simp]
theorem mem_freedSections : sec ∈ a.freedSections a' ↔
    a.free.usedSections.contains sec = true ∧ a'.free.usedSections.contains sec = false := by
  unfold freedSections
  rw [Finset.mem_sdiff, Bitmap.mem_toFinset, Bitmap.mem_toFinset, Bool.not_eq_true]

/-- A checkpoint raises the number of free sections by the number of those that it frees. -/
theorem Checkpointed.freeSections_eq {n : ℕ} (h : a.Checkpointed n a') (ha : a.Sound) :
    a'.free.freeSections = a.free.freeSections + (a.freedSections a').card := by
  have hcount := ha.free.free_sections
  have hcount' := h.sound.free.free_sections
  rw [h.geometry] at hcount'
  -- The sections in use after the checkpoint were in use before it.
  have hsub : a'.free.usedSections.toFinset ⊆ a.free.usedSections.toFinset := by
    intro sec hsec
    rw [Bitmap.mem_toFinset] at hsec ⊢
    obtain ⟨seg, hseg, hin⟩ := (h.sound.free.section_used sec).mp hsec
    rw [h.geometry] at hseg
    exact (ha.free.section_used sec).mpr ⟨seg, hseg, ((h.used seg).mp hin).1⟩
  have hcard := Finset.card_sdiff_add_card_eq_card hsub
  unfold freedSections
  omega

/-- A checkpoint raises the number of free sections by at least the length of a list of different
sections that it frees. -/
theorem Checkpointed.freeSections_le {n : ℕ} (h : a.Checkpointed n a') (ha : a.Sound)
    (hnodup : secs.Nodup) (hfreed : ∀ sec ∈ secs, sec ∈ a.freedSections a') :
    a.free.freeSections + secs.length ≤ a'.free.freeSections := by
  have hsub : secs.toFinset ⊆ a.freedSections a' := by
    intro sec hsec
    exact hfreed sec (List.mem_toFinset.mp hsec)
  have hcard := Finset.card_le_card hsub
  rw [List.toFinset_card_of_nodup hnodup] at hcard
  rw [h.freeSections_eq ha]
  exact Nat.add_le_add_left hcard _

/-- If a checkpoint frees sections of a list only and raises the number of free sections by at least
its length, then it frees all of them, and they are different. -/
theorem Checkpointed.freed_of_freeSections_le {n : ℕ} (h : a.Checkpointed n a') (ha : a.Sound)
    (honly : ∀ sec ∈ a.freedSections a', sec ∈ secs)
    (hle : a.free.freeSections + secs.length ≤ a'.free.freeSections) :
    secs.Nodup ∧ ∀ sec ∈ secs, sec ∈ a.freedSections a' := by
  have hsub : a.freedSections a' ⊆ secs.toFinset := by
    intro sec hsec
    exact List.mem_toFinset.mpr (honly sec hsec)
  rw [h.freeSections_eq ha, Nat.add_le_add_iff_left] at hle
  -- The freed sections are at most the different ones of the list, and these at most its length.
  have hcard := Finset.card_le_card hsub
  have hlength := List.toFinset_card_le secs
  constructor
  · refine Multiset.coe_nodup.mp (Multiset.toFinset_card_eq_card_iff_nodup.mp ?_)
    exact le_antisymm hlength (hle.trans hcard)
  · intro sec hsec
    rw [Finset.eq_of_subset_of_card_le hsub (hlength.trans hle), List.mem_toFinset]
    exact hsec

/-- Free sections are no longer short when as many are free as were counted on. -/
theorem isShort_eq_false_of_freed {n needed : ℕ} (hgeometry : a'.geometry = a.geometry)
    (hfree : a.free.freeSections + n ≤ a'.free.freeSections) (h : a.isShort n needed = false) :
    a'.isShort 0 needed = false := by
  unfold isShort saturate sectionsFor at h ⊢
  rw [decide_eq_false_iff_not] at h ⊢
  rw [hgeometry]
  omega

end Reclaim.Area
