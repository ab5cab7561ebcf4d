import Mathlib.Tactic.Common
import Mathlib.Algebra.Order.Ring.Nat
import Reclaim.Geometry
import Reclaim.Proofs.Guarded

/-!
# The two coordinates of a block

In an accepted geometry a block of the main area is named by its address or by its segment and its
offset, and the two say the same thing: `segmentOf?_block` and `offsetOf_block` read the pair back
from the address, and `eq_block_of_segmentOf?` shows that every address of the area is of this form.
No address of the area is one of the two reserved ones (`isAllocated_block`), and no product in
`startBlock` loses a bit (`startBlock_eq`).

Sections are runs of segments: `mem_sectionSegments` says which segments a section has, and
`sections_mul` that the sections fill the area.
-/

namespace Reclaim

/-- The addresses of written blocks are the numbers strictly between the two reserved ones. -/
theorem Address.isAllocated_iff {a : ℕ} :
    Address.isAllocated a = true ↔ a ≠ 0 ∧ a ≠ 2 ^ 32 - 1 := by
  unfold Address.isAllocated
  rw [Bool.and_eq_true, decide_eq_true_iff, decide_eq_true_iff]
  rfl

namespace Geometry

/-- What `make` checks of a geometry. -/
structure Valid (g : Geometry) : Prop where
  /-- A segment has at least two blocks. -/
  bits_pos : 0 < g.segmentBits
  /-- A segment has at most `2 ^ maxSegmentBits` blocks. -/
  bits_le : g.segmentBits ≤ maxSegmentBits
  /-- A section has a segment. -/
  perSection_pos : 0 < g.segmentsPerSection
  /-- The area has a segment. -/
  segments_pos : 0 < g.segments
  /-- The area is made of whole sections. -/
  whole : g.segments % g.segmentsPerSection = 0
  /-- The area ends below the last address. -/
  fits : g.mainStart + g.segments * g.segmentBlocks < Address.fresh
  /-- The area begins above address 0. -/
  start_pos : 0 < g.mainStart

/-- `make` accepts exactly the valid geometries. -/
theorem make_eq_ok_iff {mainStart segmentBits segmentsPerSection segments reserved : ℕ}
    {g : Geometry} :
    make mainStart segmentBits segmentsPerSection segments reserved = .ok g ↔
      g = ⟨mainStart, segmentBits, segmentsPerSection, segments, reserved⟩ ∧ g.Valid := by
  unfold make
  constructor
  · intro h
    split_ifs at h with hbits hsegs hfits hstart
    cases h
    refine ⟨rfl, ?_, ?_, ?_, ?_, ?_, Nat.lt_of_not_le hfits, ?_⟩ <;> dsimp only <;> omega
  · rintro ⟨rfl, hg⟩
    obtain ⟨hpos, hle, hper, hsegs, hwhole, hfits, hstart⟩ := hg
    dsimp only [segmentBlocks] at *
    rw [if_neg (by omega), if_neg (by omega), if_neg (Nat.not_le_of_lt hfits), if_neg (by omega)]

variable {g : Geometry}

/-! ## Blocks -/

/-- The area ends below the last number of 32 bits. -/
theorem end_lt (hg : g.Valid) : g.mainStart + g.segments * g.segmentBlocks < 2 ^ 32 - 1 := hg.fits

/-- A segment has at least two blocks. -/
theorem two_le_segmentBlocks (hg : g.Valid) : 2 ≤ g.segmentBlocks := by
  unfold segmentBlocks
  rw [Nat.one_shiftLeft]
  calc 2 = 2 ^ 1 := rfl
    _ ≤ 2 ^ g.segmentBits := Nat.pow_le_pow_right (by omega) hg.bits_pos

/-- A segment has a block. -/
theorem segmentBlocks_pos (hg : g.Valid) : 0 < g.segmentBlocks := by
  have := two_le_segmentBlocks hg
  omega

/-- The number of segments fits 32 bits. -/
theorem segments_lt (hg : g.Valid) : g.segments < 2 ^ 32 := by
  have hend := end_lt hg
  have hblocks := Nat.le_mul_of_pos_right g.segments (segmentBlocks_pos hg)
  omega

/-- The blocks of a segment end within the area. -/
theorem block_lt {seg off : ℕ} (hseg : seg < g.segments) (hoff : off < g.segmentBlocks) :
    seg * g.segmentBlocks + off < g.segments * g.segmentBlocks := by
  calc seg * g.segmentBlocks + off < seg * g.segmentBlocks + g.segmentBlocks := by omega
    _ = (seg + 1) * g.segmentBlocks := by rw [Nat.succ_mul]
    _ ≤ g.segments * g.segmentBlocks := Nat.mul_le_mul_right _ hseg

/-- The first block of a segment of the area, with no bit lost. -/
theorem startBlock_eq (hg : g.Valid) {seg : ℕ} (hseg : seg < g.segments) :
    g.startBlock seg = g.mainStart + seg * g.segmentBlocks := by
  have hfits := end_lt hg
  have hlt := block_lt hseg (segmentBlocks_pos hg)
  unfold startBlock
  rw [Nat.mod_eq_of_lt (by omega)]

/-- The first block of a segment is computed if its number has 32 bits. -/
theorem checkedStart_eq_ok {seg : ℕ} {start : Address} :
    g.checkedStart seg = .ok start ↔ g.startBlock seg < 2 ^ 32 ∧ g.startBlock seg = start :=
  Guarded.fit32_eq_ok

/-- The first block of a segment of the area is. -/
theorem checkedStart_eq (hg : g.Valid) {seg : ℕ} (hseg : seg < g.segments) :
    g.checkedStart seg = .ok (g.startBlock seg) := by
  have hfits := end_lt hg
  have hlt := block_lt hseg (segmentBlocks_pos hg)
  refine Guarded.fit32_eq ?_
  rw [startBlock_eq hg hseg]
  omega

/-- A block of the area has neither of the reserved addresses. -/
theorem isAllocated_block (hg : g.Valid) {seg off : ℕ} (hseg : seg < g.segments)
    (hoff : off < g.segmentBlocks) : Address.isAllocated (g.startBlock seg + off) = true := by
  have hfits := end_lt hg
  have hstart := hg.start_pos
  have hlt := block_lt hseg hoff
  rw [startBlock_eq hg hseg, Address.isAllocated_iff]
  constructor <;> omega

/-- The address of a block gives back its segment. -/
theorem segmentOf?_block (hg : g.Valid) {seg off : ℕ} (hseg : seg < g.segments)
    (hoff : off < g.segmentBlocks) : g.segmentOf? (g.startBlock seg + off) = some seg := by
  have halloc := isAllocated_block hg hseg hoff
  -- The distance from the start of the area is divided by the size of a segment.
  have hdiv : (seg * g.segmentBlocks + off) / g.segmentBlocks = seg := by
    rw [Nat.mul_comm, Nat.mul_add_div (segmentBlocks_pos hg), Nat.div_eq_of_lt hoff, Nat.add_zero]
  unfold segmentOf?
  rw [halloc, startBlock_eq hg hseg,
    show g.mainStart + seg * g.segmentBlocks + off - g.mainStart = seg * g.segmentBlocks + off by
      omega, hdiv]
  simp [hseg, Nat.add_assoc]

/-- The address of a block gives back its offset. -/
theorem offsetOf_block (hg : g.Valid) {seg off : ℕ} (hseg : seg < g.segments)
    (hoff : off < g.segmentBlocks) : g.offsetOf (g.startBlock seg + off) = off := by
  unfold offsetOf
  rw [startBlock_eq hg hseg,
    show g.mainStart + seg * g.segmentBlocks + off - g.mainStart = seg * g.segmentBlocks + off by
      omega, Nat.mul_comm, Nat.mul_add_mod, Nat.mod_eq_of_lt hoff]

/-- An address of the area is the address of the block with its segment and its offset. -/
theorem eq_block_of_segmentOf? (hg : g.Valid) {a seg : ℕ}
    (h : g.segmentOf? a = some seg) :
    seg < g.segments ∧ g.offsetOf a < g.segmentBlocks ∧ a = g.startBlock seg + g.offsetOf a := by
  unfold segmentOf? at h
  dsimp only at h
  split_ifs at h with hin hlt
  cases h
  simp only [Bool.and_eq_true, decide_eq_true_eq] at hin
  refine ⟨hlt, Nat.mod_lt _ (segmentBlocks_pos hg), ?_⟩
  have hdiv := Nat.div_add_mod (a - g.mainStart) g.segmentBlocks
  rw [startBlock_eq hg hlt]
  unfold offsetOf
  rw [Nat.mul_comm] at hdiv
  omega

/-- Addresses of the area with one segment and one offset are equal. -/
theorem eq_of_segmentOf? (hg : g.Valid) {a b seg : ℕ} (ha : g.segmentOf? a = some seg)
    (hb : g.segmentOf? b = some seg) (hoff : g.offsetOf a = g.offsetOf b) : a = b := by
  obtain ⟨-, -, ha⟩ := eq_block_of_segmentOf? hg ha
  obtain ⟨-, -, hb⟩ := eq_block_of_segmentOf? hg hb
  rw [ha, hb, hoff]

/-- An address of the area is no reserved one. -/
theorem isAllocated_of_segmentOf? {a seg : ℕ} (h : g.segmentOf? a = some seg) :
    Address.isAllocated a = true := by
  unfold segmentOf? at h
  split_ifs at h with hin
  rw [Bool.and_eq_true] at hin
  exact hin.1

/-! ## Sections -/

/-- The sections fill the area. -/
theorem sections_mul (hg : g.Valid) : g.sections * g.segmentsPerSection = g.segments := by
  unfold sections
  have hdiv := Nat.div_add_mod g.segments g.segmentsPerSection
  rw [hg.whole, Nat.add_zero, Nat.mul_comm] at hdiv
  exact hdiv

/-- The section of a segment of the area is one of the area. -/
theorem sectionOf_lt (hg : g.Valid) {seg : ℕ} (hseg : seg < g.segments) :
    g.sectionOf seg < g.sections := by
  unfold sectionOf
  rw [Nat.div_lt_iff_lt_mul hg.perSection_pos, sections_mul hg]
  exact hseg

/-- The area has a section. -/
theorem sections_pos (hg : g.Valid) : 0 < g.sections :=
  Nat.zero_lt_of_lt (sectionOf_lt hg hg.segments_pos)

/-- The segments of a section are those that lie in it. -/
theorem mem_sectionSegments (hg : g.Valid) {sec seg : ℕ} :
    seg ∈ g.sectionSegments sec ↔ g.sectionOf seg = sec := by
  have hper := hg.perSection_pos
  unfold sectionSegments firstSegment sectionOf
  rw [List.mem_range'_1, Nat.div_eq_iff hper]
  omega

/-- The segments of a section are the range from its first one on. -/
theorem section_range_iff (hg : g.Valid) {sec seg : ℕ} :
    g.firstSegment sec ≤ seg ∧ seg < g.firstSegment sec + g.segmentsPerSection ↔
      g.sectionOf seg = sec := by
  rw [← mem_sectionSegments hg]
  unfold sectionSegments
  rw [List.mem_range'_1]

/-- The first segment of a section lies in it. -/
theorem sectionOf_firstSegment (hg : g.Valid) (sec : ℕ) :
    g.sectionOf (g.firstSegment sec) = sec := by
  unfold sectionOf firstSegment
  exact Nat.mul_div_cancel sec hg.perSection_pos

/-- Rounding a segment down to the section size gives the first segment of its section. -/
theorem sub_mod_eq_firstSegment (g : Geometry) (seg : ℕ) :
    seg - seg % g.segmentsPerSection = g.firstSegment (g.sectionOf seg) := by
  have hdiv := Nat.div_add_mod seg g.segmentsPerSection
  unfold firstSegment sectionOf
  rw [Nat.mul_comm] at hdiv
  omega

/-- A segment of a section of the area is one of the area. -/
theorem lt_segments_of_sectionOf (hg : g.Valid) {sec seg : ℕ} (hsec : sec < g.sections)
    (h : g.sectionOf seg = sec) : seg < g.segments := by
  subst h
  unfold sectionOf at hsec
  rw [Nat.div_lt_iff_lt_mul hg.perSection_pos, sections_mul hg] at hsec
  exact hsec

/-- The segments of a section of the area end within it. -/
theorem section_end_le (hg : g.Valid) {sec : ℕ} (hsec : sec < g.sections) :
    g.firstSegment sec + g.segmentsPerSection ≤ g.segments := by
  have hper := hg.perSection_pos
  -- The last segment of the section is one of the area, so the one behind it is at most the end.
  have hlast : g.sectionOf (g.firstSegment sec + g.segmentsPerSection - 1) = sec :=
    (section_range_iff hg).mp (by omega)
  have := lt_segments_of_sectionOf hg hsec hlast
  omega

/-- The first segment of a section of the area is one of the area. -/
theorem firstSegment_lt (hg : g.Valid) {sec : ℕ} (hsec : sec < g.sections) :
    g.firstSegment sec < g.segments :=
  lt_segments_of_sectionOf hg hsec (sectionOf_firstSegment hg sec)

/-- A segment number that is no multiple of the section size lies in the section of the number
before it. -/
theorem sectionOf_succ {seg : ℕ} (h : (seg + 1) % g.segmentsPerSection ≠ 0) :
    g.sectionOf (seg + 1) = g.sectionOf seg := by
  unfold sectionOf
  rw [Nat.succ_div_of_not_dvd]
  rwa [Nat.dvd_iff_mod_eq_zero]

end Geometry

end Reclaim
