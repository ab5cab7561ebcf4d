import Reclaim.Proofs.Geometry

/-!
# The coordinates of a block in words

Addresses, segments and offsets are words of 32 bits, and the conversions between them are made of
shifts, masks and sums that wrap. In an accepted geometry nothing is lost that way:
`toNat_startWord`, `map_toNat_segmentWord?` and `toNat_offsetWord` show that the words carry the
numbers that `startBlock`, `segmentOf?` and `offsetOf` compute, for every address of 32 bits and up
to the last block of the area. `coordinates_correspond` says what the conversions amount to: blocks
correspond to addresses of the area one to one, and sections partition the segments.
-/

namespace Reclaim.Geometry

variable {g : Geometry}

/-! ## Conversions of words -/

/-- The first block of a segment, by a shift. -/
def startWord (g : Geometry) (seg : UInt32) : UInt32 :=
  .ofNat g.mainStart + seg <<< .ofNat g.segmentBits

/-- The segment that holds a block, by a shift, if the block lies in the main area. -/
def segmentWord? (g : Geometry) (addr : UInt32) : Option UInt32 :=
  if addr = 0 ∨ addr = 0xFFFF_FFFF ∨ addr < .ofNat g.mainStart then
    none
  else
    let seg := (addr - .ofNat g.mainStart) >>> .ofNat g.segmentBits
    if seg < .ofNat g.segments then some seg else none

/-- The offset of a block inside its segment, by a mask. -/
def offsetWord (g : Geometry) (addr : UInt32) : UInt32 :=
  (addr - .ofNat g.mainStart) &&& ((1 : UInt32) <<< .ofNat g.segmentBits - 1)

/-- A segment has a power of two of blocks. -/
theorem segmentBlocks_eq (g : Geometry) : g.segmentBlocks = 2 ^ g.segmentBits :=
  Nat.one_shiftLeft _

section

variable (hg : g.Valid)
include hg

/-- The start of the area fits a word. -/
theorem toNat_mainStart : (UInt32.ofNat g.mainStart).toNat = g.mainStart := by
  have hend := end_lt hg
  exact UInt32.toNat_ofNat_of_lt' (by rw [UInt32.size]; omega)

/-- The number of segments fits a word. -/
theorem toNat_segments : (UInt32.ofNat g.segments).toNat = g.segments :=
  UInt32.toNat_ofNat_of_lt' (segments_lt hg)

/-- A shift by the width of an offset multiplies by the blocks of a segment, up to the bits that
leave the word. -/
theorem toNat_shiftLeft_bits (word : UInt32) :
    (word <<< UInt32.ofNat g.segmentBits).toNat = word.toNat * g.segmentBlocks % 2 ^ 32 := by
  have hbits : g.segmentBits ≤ 16 := hg.bits_le
  rw [UInt32.toNat_shiftLeft, UInt32.toNat_ofNat_of_lt' (by rw [UInt32.size]; omega),
    Nat.mod_eq_of_lt (a := g.segmentBits) (by omega), Nat.shiftLeft_eq, segmentBlocks_eq]

/-- A shift back divides by them. -/
theorem toNat_shiftRight_bits (word : UInt32) :
    (word >>> UInt32.ofNat g.segmentBits).toNat = word.toNat / g.segmentBlocks := by
  have hbits : g.segmentBits ≤ 16 := hg.bits_le
  rw [UInt32.toNat_shiftRight, UInt32.toNat_ofNat_of_lt' (by rw [UInt32.size]; omega),
    Nat.mod_eq_of_lt (by omega), Nat.shiftRight_eq_div_pow, segmentBlocks_eq]

/-- The mask of an offset has the bits below the blocks of a segment. -/
theorem toNat_mask :
    ((1 : UInt32) <<< UInt32.ofNat g.segmentBits - 1).toNat = 2 ^ g.segmentBits - 1 := by
  have hblocks : 2 ^ g.segmentBits ≤ 2 ^ maxSegmentBits :=
    Nat.pow_le_pow_right (by decide) hg.bits_le
  have hone : ((1 : UInt32) <<< UInt32.ofNat g.segmentBits).toNat = 2 ^ g.segmentBits := by
    rw [toNat_shiftLeft_bits hg, segmentBlocks_eq, UInt32.toNat_one, Nat.one_mul,
      Nat.mod_eq_of_lt (Nat.lt_of_le_of_lt hblocks (by decide))]
  rw [UInt32.toNat_sub_of_le, hone, UInt32.toNat_one]
  rw [UInt32.le_iff_toNat_le, hone, UInt32.toNat_one]
  exact Nat.one_le_two_pow

/-- The words carry the first block of a segment of the area. -/
theorem toNat_startWord {seg : UInt32} (hseg : seg.toNat < g.segments) :
    (g.startWord seg).toNat = g.startBlock seg.toNat := by
  have hend := end_lt hg
  have hlt := block_lt hseg (segmentBlocks_pos hg)
  rw [startBlock_eq hg hseg, startWord, UInt32.toNat_add, toNat_mainStart hg,
    toNat_shiftLeft_bits hg, Nat.mod_eq_of_lt (a := seg.toNat * g.segmentBlocks) (by omega),
    Nat.mod_eq_of_lt (by omega)]

/-- The distance of a block from the start of the area does not wrap. -/
theorem toNat_distance {addr : UInt32} (h : g.mainStart ≤ addr.toNat) :
    (addr - .ofNat g.mainStart).toNat = addr.toNat - g.mainStart := by
  rw [UInt32.toNat_sub_of_le, toNat_mainStart hg]
  rwa [UInt32.le_iff_toNat_le, toNat_mainStart hg]

/-- The words carry the segment of an address, whether or not it is one of the area. -/
theorem map_toNat_segmentWord? (addr : UInt32) :
    (g.segmentWord? addr).map UInt32.toNat = g.segmentOf? addr.toNat := by
  have houtside : (addr = 0 ∨ addr = 0xFFFF_FFFF ∨ addr < .ofNat g.mainStart) ↔
      ¬(Address.isAllocated addr.toNat = true ∧ g.mainStart ≤ addr.toNat) := by
    rw [Address.isAllocated_iff, UInt32.lt_iff_toNat_lt, toNat_mainStart hg, ← UInt32.toNat_inj,
      ← UInt32.toNat_inj]
    have hzero : (0 : UInt32).toNat = 0 := rfl
    have hlast : (0xFFFF_FFFF : UInt32).toNat = 2 ^ 32 - 1 := rfl
    omega
  unfold segmentWord? segmentOf?
  by_cases hin : Address.isAllocated addr.toNat = true ∧ g.mainStart ≤ addr.toNat
  · rw [if_neg (houtside.not.mpr (not_not.mpr hin)),
      if_pos (c := _ = true) (by simpa using hin)]
    have hseg := toNat_shiftRight_bits hg (addr - .ofNat g.mainStart)
    rw [toNat_distance hg hin.2] at hseg
    simp only [UInt32.lt_iff_toNat_lt, toNat_segments hg, hseg]
    split_ifs
    · rw [Option.map_some, hseg]
    · rfl
  · rw [if_pos (houtside.mpr hin), if_neg (by simpa using hin)]
    rfl

/-- The words carry the offset of an address that is not below the area. -/
theorem toNat_offsetWord {addr : UInt32} (h : g.mainStart ≤ addr.toNat) :
    (g.offsetWord addr).toNat = g.offsetOf addr.toNat := by
  rw [offsetWord, UInt32.toNat_and, toNat_mask hg, toNat_distance hg h,
    Nat.and_two_pow_sub_one_eq_mod, offsetOf, segmentBlocks_eq]

/-! ## Blocks and addresses -/

/-- An address lies in a segment of the area exactly when it is one of the addresses from its start
to its end. -/
theorem isSome_segmentOf?_iff (addr : ℕ) : (g.segmentOf? addr).isSome = true ↔
    g.mainStart ≤ addr ∧ addr < g.mainStart + g.segments * g.segmentBlocks := by
  have hstart := hg.start_pos
  have hend := end_lt hg
  constructor
  · intro hsome
    obtain ⟨seg, hseg⟩ := Option.isSome_iff_exists.mp hsome
    obtain ⟨hlt, hoff, haddr⟩ := eq_block_of_segmentOf? hg hseg
    have hblock := block_lt hlt hoff
    rw [startBlock_eq hg hlt] at haddr
    omega
  · rintro ⟨hlow, hhigh⟩
    have hallocated : Address.isAllocated addr = true := Address.isAllocated_iff.mpr (by omega)
    have hseg : (addr - g.mainStart) / g.segmentBlocks < g.segments := by
      rw [Nat.div_lt_iff_lt_mul (segmentBlocks_pos hg)]
      omega
    simp [segmentOf?, hallocated, hlow, hseg]

end

/-- In an accepted geometry a block of the area, by its segment and its offset, has an address that
is no reserved one and is computed without a bit being lost, and from which segment and offset are
read back. An address of 32 bits lies in a segment exactly when it is one of the area, and then it
is the address of the block with that segment and its offset. The words of the conversions carry
these numbers. A segment lies in the range of its own section, which is one of the area and ends in
it, and in that of no other. -/
theorem coordinates_correspond {mainStart segmentBits segmentsPerSection segments reserved : ℕ}
    (h : make mainStart segmentBits segmentsPerSection segments reserved = .ok g) :
    (∀ seg off : UInt32, seg.toNat < g.segments → off.toNat < g.segmentBlocks →
      (g.startWord seg + off).toNat = g.startBlock seg.toNat + off.toNat ∧
      g.startBlock seg.toNat + off.toNat =
        g.mainStart + seg.toNat * g.segmentBlocks + off.toNat ∧
      Address.isAllocated (g.startBlock seg.toNat + off.toNat) = true ∧
      g.segmentOf? (g.startBlock seg.toNat + off.toNat) = some seg.toNat ∧
      g.offsetOf (g.startBlock seg.toNat + off.toNat) = off.toNat) ∧
    (∀ addr : UInt32, (g.segmentWord? addr).map UInt32.toNat = g.segmentOf? addr.toNat ∧
      ((g.segmentOf? addr.toNat).isSome = true ↔ g.mainStart ≤ addr.toNat ∧
        addr.toNat < g.mainStart + g.segments * g.segmentBlocks) ∧
      ∀ seg, g.segmentOf? addr.toNat = some seg → seg < g.segments ∧
        g.offsetOf addr.toNat < g.segmentBlocks ∧
        (g.offsetWord addr).toNat = g.offsetOf addr.toNat ∧
        g.startBlock seg + g.offsetOf addr.toNat = addr.toNat) ∧
    ∀ seg < g.segments, g.sectionOf seg < g.sections ∧
      g.firstSegment (g.sectionOf seg) + g.segmentsPerSection ≤ g.segments ∧
      ∀ sec, g.firstSegment sec ≤ seg ∧ seg < g.firstSegment sec + g.segmentsPerSection ↔
        g.sectionOf seg = sec := by
  obtain ⟨-, hg⟩ := make_eq_ok_iff.mp h
  have hend := end_lt hg
  refine ⟨fun seg off hseg hoff => ?_, fun addr => ?_, fun seg hseg => ?_⟩
  · have hblock := startBlock_eq hg hseg
    have hlt := block_lt hseg hoff
    refine ⟨?_, by rw [hblock], isAllocated_block hg hseg hoff, segmentOf?_block hg hseg hoff,
      offsetOf_block hg hseg hoff⟩
    rw [UInt32.toNat_add, toNat_startWord hg hseg, hblock, Nat.mod_eq_of_lt (by omega)]
  · have hrange := isSome_segmentOf?_iff hg addr.toNat
    refine ⟨map_toNat_segmentWord? hg addr, hrange, fun seg hseg => ?_⟩
    obtain ⟨hlt, hoff, haddr⟩ := eq_block_of_segmentOf? hg hseg
    obtain ⟨hlow, -⟩ := hrange.mp (by rw [hseg]; rfl)
    exact ⟨hlt, hoff, toNat_offsetWord hg hlow, haddr.symm⟩
  · have hsec := sectionOf_lt hg hseg
    exact ⟨hsec, section_end_le hg hsec, fun sec => section_range_iff hg⟩

/-- A geometry whose area ends right below the last address. -/
def brimful : Geometry := ⟨2, 1, 2, 0x7FFF_FFFE, 0⟩

/-- In an area that ends right below the last address, the last block is told apart from the
address behind it. -/
theorem coordinates_correspond_brimful : make 2 1 2 0x7FFF_FFFE 0 = .ok brimful ∧
    brimful.startBlock 0x7FFF_FFFD + 1 = 0xFFFF_FFFD ∧
    brimful.segmentOf? 0xFFFF_FFFD = some 0x7FFF_FFFD ∧ brimful.offsetOf 0xFFFF_FFFD = 1 ∧
    (brimful.segmentOf? 0xFFFF_FFFE).isSome = false := by
  have hmake : make 2 1 2 0x7FFF_FFFE 0 = .ok brimful := by decide
  obtain ⟨hblocks, haddresses, -⟩ := coordinates_correspond hmake
  obtain ⟨-, haddr, -, hseg, hoff⟩ := hblocks 0x7FFF_FFFD 1 (by decide) (by decide)
  obtain ⟨-, hrange, -⟩ := haddresses 0xFFFF_FFFE
  rw [haddr] at hseg hoff
  refine ⟨hmake, haddr, hseg, hoff, Bool.eq_false_iff.mpr fun h => ?_⟩
  exact absurd (hrange.mp h).2 (by decide)

end Reclaim.Geometry
