import Reclaim.Area.Space
import Reclaim.Proofs.Area.Counts
import Reclaim.Proofs.Geometry.Words

/-!
# When background collection pays off

The test whether background collection pays off is computed in words. Its total, its two limits and
its free blocks fit 64 bits whatever the percentages are. The reserve is another matter: nothing
bounds it, and its product with the segments of a section must fit 32 bits. As long as it does,
`isWorthCollecting` answers with what the words carry (`worthWords_eq`), and this is the test in
exact arithmetic (`PaysOff`); when it does not, there is no answer, whatever the space is.
`isWorthCollecting_exact` states both.
-/

namespace Reclaim.Area

variable {a : Area}

/-- The blocks of an area. -/
def blocks (a : Area) : ℕ := a.geometry.segments * a.geometry.segmentBlocks

/-- The segments of the reserve. -/
def reservedSegments (a : Area) : ℕ := a.geometry.reserved * a.geometry.segmentsPerSection

/-- An area with another reserve. -/
def withReserve (a : Area) (reserved : ℕ) : Area :=
  { a with geometry := { a.geometry with reserved } }

/-- The test, with its numbers named. -/
theorem isWorthCollecting_def (a : Area) (invalidPct freePct : ℕ) :
    a.isWorthCollecting invalidPct freePct = do
      let reserved ← Guarded.fit32 a.reservedSegments
      let dead ← Guarded.fit64 (a.blocks * invalidPct)
      let spare ← Guarded.fit64 ((a.blocks - a.table.live) * freePct)
      return dead / 100 < a.blocks - a.table.live &&
        (a.free.freeSegments - reserved) * a.geometry.segmentBlocks < spare / 100 := rfl

/-! ## Words -/

/-- A difference of words that stops at zero. -/
def minusWord (x y : UInt64) : UInt64 := if y ≤ x then x - y else 0

/-- The test whether background collection pays off, as words compute it. -/
def worthWords (a : Area) (invalidPct freePct : UInt32) : Bool :=
  let bits : UInt64 := .ofNat a.geometry.segmentBits
  let total : UInt64 := .ofNat a.geometry.segments <<< bits
  let reserved : UInt32 := .ofNat a.geometry.reserved * .ofNat a.geometry.segmentsPerSection
  let freeBlocks := minusWord (.ofNat a.free.freeSegments) reserved.toUInt64 <<< bits
  let invalid := minusWord total (.ofNat a.table.live)
  total * invalidPct.toUInt64 / 100 < invalid && freeBlocks < invalid * freePct.toUInt64 / 100

/-- A difference of words carries the difference of the numbers. -/
theorem toNat_minusWord (x y : UInt64) : (minusWord x y).toNat = x.toNat - y.toNat := by
  unfold minusWord
  split_ifs with h
  · exact UInt64.toNat_sub_of_le _ _ h
  · rw [UInt64.le_iff_toNat_le] at h
    rw [Nat.sub_eq_zero_of_le (by omega)]
    rfl

/-- A product of words carries the product of the numbers if that fits 64 bits. -/
theorem toNat_mul_word {x y : UInt64} (h : x.toNat * y.toNat < 2 ^ 64) :
    (x * y).toNat = x.toNat * y.toNat := by
  rw [UInt64.toNat_mul, Nat.mod_eq_of_lt h]

/-- A number of segments of an area, shifted to blocks, fits 64 bits. -/
theorem toNat_shift_word {g : Geometry} (hg : g.Valid) {x : UInt64} (hx : x.toNat ≤ g.segments) :
    (x <<< UInt64.ofNat g.segmentBits).toNat = x.toNat * g.segmentBlocks := by
  have hbits : g.segmentBits ≤ 16 := hg.bits_le
  have hend := Geometry.end_lt hg
  have hle := Nat.mul_le_mul_right g.segmentBlocks hx
  rw [UInt64.toNat_shiftLeft, UInt64.toNat_ofNat_of_lt' (by rw [UInt64.size]; omega),
    Nat.mod_eq_of_lt (a := g.segmentBits) (by omega), Nat.shiftLeft_eq, ← Geometry.segmentBlocks_eq,
    Nat.mod_eq_of_lt (by omega)]

section

variable (ha : a.Tallied)
include ha

/-- An area has fewer blocks than a word of 32 bits has values. -/
theorem Tallied.blocks_lt : a.blocks < 2 ^ 32 := by
  have hend := Geometry.end_lt ha.geometry
  unfold blocks
  omega

/-- No more blocks are live than the area has. -/
theorem Tallied.live_le_blocks : a.table.live ≤ a.blocks := by
  rw [ha.table.live_eq]
  calc ∑ seg ∈ Finset.range a.geometry.segments, (a.table.record seg).live
      ≤ ∑ _seg ∈ Finset.range a.geometry.segments, a.geometry.segmentBlocks :=
        Finset.sum_le_sum fun seg hseg =>
          Segment.live_le (ha.table.records seg (Finset.mem_range.mp hseg))
    _ = a.blocks := by rw [Finset.sum_const, Finset.card_range]; rfl

/-- No more segments are free than the area has. -/
theorem Tallied.freeSegments_le : a.free.freeSegments ≤ a.geometry.segments :=
  Nat.le.intro ha.free.free_segments

/-- A percentage of a number of blocks fits 64 bits before it is divided by a hundred. -/
theorem Tallied.percent_lt {n : ℕ} (hn : n ≤ a.blocks) (pct : UInt32) : n * pct.toNat < 2 ^ 64 :=
  Nat.mul_lt_mul'' (c := 2 ^ 32) (d := 2 ^ 32) (hn.trans_lt ha.blocks_lt) pct.toNat_lt

/-- A percentage of a number of blocks, computed with words, is that of the number. -/
theorem Tallied.toNat_percent {x : UInt64} (hx : x.toNat ≤ a.blocks) (pct : UInt32) :
    (x * pct.toUInt64 / 100).toNat = x.toNat * pct.toNat / 100 := by
  rw [UInt64.toNat_div, toNat_mul_word (ha.percent_lt hx pct), UInt32.toNat_toUInt64]
  rfl

/-- With a reserve that fits its word, the test compares the two limits. -/
theorem Tallied.isWorthCollecting_eq (hfits : a.reservedSegments < 2 ^ 32)
    (invalidPct freePct : UInt32) :
    a.isWorthCollecting invalidPct.toNat freePct.toNat =
      .ok (a.blocks * invalidPct.toNat / 100 < a.blocks - a.table.live &&
        (a.free.freeSegments - a.reservedSegments) * a.geometry.segmentBlocks <
          (a.blocks - a.table.live) * freePct.toNat / 100) := by
  have hdead := Guarded.fit64_eq (ha.percent_lt le_rfl invalidPct)
  have hspare := Guarded.fit64_eq (ha.percent_lt (Nat.sub_le a.blocks a.table.live) freePct)
  rw [isWorthCollecting_def, Guarded.fit32_eq hfits, Guarded.ok_bind, hdead, Guarded.ok_bind,
    hspare, Guarded.ok_bind, Guarded.pure_eq_ok]

/-- With a reserve that fits its word, the words carry the numbers that the test is computed
with. -/
theorem Tallied.worthWords_eq (hfits : a.reservedSegments < 2 ^ 32) (invalidPct freePct : UInt32) :
    a.isWorthCollecting invalidPct.toNat freePct.toNat = .ok (a.worthWords invalidPct freePct) := by
  have hblocks := ha.blocks_lt
  have hlive := ha.live_le_blocks
  have hfree := ha.freeSegments_le
  have hsegments : a.geometry.segments ≤ a.blocks :=
    Nat.le_mul_of_pos_right _ (Geometry.segmentBlocks_pos ha.geometry)
  have hcount : ∀ n ≤ a.blocks, (UInt64.ofNat n).toNat = n := fun n hn =>
    UInt64.toNat_ofNat_of_lt' (by rw [UInt64.size]; omega)
  have hreserved : (UInt32.ofNat a.geometry.reserved *
      UInt32.ofNat a.geometry.segmentsPerSection).toUInt64.toNat = a.reservedSegments := by
    rw [UInt32.toNat_toUInt64, UInt32.toNat_mul, UInt32.toNat_ofNat', UInt32.toNat_ofNat',
      ← Nat.mul_mod]
    exact Nat.mod_eq_of_lt hfits
  rw [ha.isWorthCollecting_eq hfits]
  unfold worthWords
  dsimp only
  -- The four words, in the order in which they are computed.
  generalize htotal : UInt64.ofNat a.geometry.segments <<< UInt64.ofNat a.geometry.segmentBits =
    total
  have htotal' : total.toNat = a.blocks := by
    rw [← htotal, toNat_shift_word ha.geometry (hcount _ hsegments).le, hcount _ hsegments]
    rfl
  generalize hinvalid : minusWord total (.ofNat a.table.live) = invalid
  have hinvalid' : invalid.toNat = a.blocks - a.table.live := by
    rw [← hinvalid, toNat_minusWord, htotal', hcount _ hlive]
  generalize houtside : minusWord (.ofNat a.free.freeSegments) (UInt32.ofNat a.geometry.reserved *
    UInt32.ofNat a.geometry.segmentsPerSection).toUInt64 = outside
  have houtside' : outside.toNat = a.free.freeSegments - a.reservedSegments := by
    rw [← houtside, toNat_minusWord, hcount _ (hfree.trans hsegments), hreserved]
  simp only [UInt64.lt_iff_toNat_lt, toNat_shift_word ha.geometry (x := outside) (by omega),
    ha.toNat_percent htotal'.le, ha.toNat_percent (x := invalid) (by omega), htotal', hinvalid',
    houtside']

end

/-! ## Exact arithmetic -/

/-- Whether background collection pays off: more than a percentage of the area holds nothing live,
and the free blocks outside the reserve are fewer than a percentage of what holds nothing live. -/
structure PaysOff (a : Area) (invalidPct freePct : ℕ) : Prop where
  /-- Much is dead. -/
  invalid : (a.blocks : ℤ) * invalidPct / 100 < (a.blocks : ℤ) - a.table.live
  /-- Little is free. -/
  free : (a.geometry.segmentBlocks : ℤ) * max 0 ((a.free.freeSegments : ℤ) - a.reservedSegments) <
    ((a.blocks : ℤ) - a.table.live) * freePct / 100

/-- Exact arithmetic on integers is that on numbers that stops at zero. -/
theorem Tallied.paysOff_iff (ha : a.Tallied) (invalidPct freePct : ℕ) :
    a.PaysOff invalidPct freePct ↔ a.blocks * invalidPct / 100 < a.blocks - a.table.live ∧
      a.geometry.segmentBlocks * (a.free.freeSegments - a.reservedSegments) <
        (a.blocks - a.table.live) * freePct / 100 := by
  have hlive := ha.live_le_blocks
  have hinvalid : (a.blocks : ℤ) - a.table.live = (a.blocks - a.table.live : ℕ) := by omega
  have houtside : max 0 ((a.free.freeSegments : ℤ) - a.reservedSegments) =
      (a.free.freeSegments - a.reservedSegments : ℕ) := by omega
  constructor
  · rintro ⟨hdead, hfree⟩
    rw [hinvalid] at hdead hfree
    rw [houtside] at hfree
    exact ⟨by exact_mod_cast hdead, by exact_mod_cast hfree⟩
  · rintro ⟨hdead, hfree⟩
    refine ⟨?_, ?_⟩
    · rw [hinvalid]
      exact_mod_cast hdead
    · rw [hinvalid, houtside]
      exact_mod_cast hfree

/-- With a reserve that fits its word, the test decides whether collection pays off. -/
theorem Tallied.isWorthCollecting_iff (ha : a.Tallied) (hfits : a.reservedSegments < 2 ^ 32)
    (invalidPct freePct : UInt32) :
    a.isWorthCollecting invalidPct.toNat freePct.toNat = .ok true ↔
      a.PaysOff invalidPct.toNat freePct.toNat := by
  rw [ha.isWorthCollecting_eq hfits, ha.paysOff_iff, Except.ok.injEq, Bool.and_eq_true,
    decide_eq_true_iff, decide_eq_true_iff, Nat.mul_comm a.geometry.segmentBlocks]

/-- With a reserve that does not fit its word, the test gives no answer. -/
theorem isWorthCollecting_eq_width (hwide : 2 ^ 32 ≤ a.reservedSegments) (invalidPct freePct : ℕ) :
    a.isWorthCollecting invalidPct freePct = .error .width := by
  rw [isWorthCollecting_def, Guarded.fit32_eq_error hwide, Guarded.error_bind]

/-- A larger reserve leaves fewer free blocks outside it. -/
theorem PaysOff.of_le {reserved reserved' invalidPct freePct : ℕ} (hle : reserved ≤ reserved')
    (h : (a.withReserve reserved).PaysOff invalidPct freePct) :
    (a.withReserve reserved').PaysOff invalidPct freePct where
  invalid := h.invalid
  free := by
    have hmore : (a.withReserve reserved).reservedSegments ≤
        (a.withReserve reserved').reservedSegments := Nat.mul_le_mul_right _ hle
    have hfree : (a.withReserve reserved').free.freeSegments =
        (a.withReserve reserved).free.freeSegments := rfl
    exact lt_of_le_of_lt (Int.mul_le_mul_of_nonneg_left (by omega) (Int.natCast_nonneg _)) h.free

/-- Another reserve leaves the counters exact. -/
theorem Tallied.withReserve (ha : a.Tallied) (reserved : ℕ) : (a.withReserve reserved).Tallied where
  geometry := ⟨ha.geometry.bits_pos, ha.geometry.bits_le, ha.geometry.perSection_pos,
    ha.geometry.segments_pos, ha.geometry.whole, ha.geometry.fits, ha.geometry.start_pos⟩
  table := ⟨ha.table.size, ha.table.records, ha.table.live_eq⟩
  dirty := ha.dirty
  free := ⟨ha.free.segments, ha.free.segments_size, ha.free.sections, ha.free.sections_size,
    ha.free.free_segments, ha.free.free_sections, ha.free.section_used⟩
  heads := ha.heads

/-- In every area that is reached from a created one by any commands, with any reserve and any
percentages of 32 bits: no more blocks are live than the area has; when the reserve in segments fits
32 bits the test gives an answer, the one that words compute, and it is true exactly when collection
pays off; when it does not fit the test gives none. In exact arithmetic a larger reserve never makes
the test fail, nor does one in the test itself that fits. -/
theorem isWorthCollecting_exact {l : Layout} {a₀ : Area} {events : List Event}
    (hcreate : create l = .ok (.ok a₀)) (h : Course a₀ events a) (invalidPct freePct : UInt32) :
    a.table.live ≤ a.blocks ∧
    (a.reservedSegments < 2 ^ 32 →
      a.isWorthCollecting invalidPct.toNat freePct.toNat = .ok (a.worthWords invalidPct freePct) ∧
      (a.worthWords invalidPct freePct = true ↔ a.PaysOff invalidPct.toNat freePct.toNat)) ∧
    (2 ^ 32 ≤ a.reservedSegments →
      a.isWorthCollecting invalidPct.toNat freePct.toNat = .error .width) ∧
    ∀ reserved reserved', reserved ≤ reserved' →
      ((a.withReserve reserved).PaysOff invalidPct.toNat freePct.toNat →
        (a.withReserve reserved').PaysOff invalidPct.toNat freePct.toNat) ∧
      ((a.withReserve reserved').reservedSegments < 2 ^ 32 →
        (a.withReserve reserved).isWorthCollecting invalidPct.toNat freePct.toNat = .ok true →
        (a.withReserve reserved').isWorthCollecting invalidPct.toNat freePct.toNat = .ok true) := by
  have ha := h.tallied (create_sound hcreate).tallied
  refine ⟨ha.live_le_blocks, fun hfits => ⟨ha.worthWords_eq hfits invalidPct freePct, ?_⟩,
    fun hwide => isWorthCollecting_eq_width hwide _ _,
    fun reserved reserved' hle => ⟨PaysOff.of_le hle, fun hfits hworth => ?_⟩⟩
  · rw [← ha.isWorthCollecting_iff hfits, ha.worthWords_eq hfits, Except.ok.injEq]
  · -- The smaller reserve fits as well.
    have hsmaller : (a.withReserve reserved).reservedSegments < 2 ^ 32 :=
      lt_of_le_of_lt (Nat.mul_le_mul_right _ hle) hfits
    rw [(ha.withReserve reserved).isWorthCollecting_iff hsmaller] at hworth
    rw [(ha.withReserve reserved').isWorthCollecting_iff hfits]
    exact hworth.of_le hle

/-- A layout of eight sections, each of two segments of two blocks. -/
def twoByTwoLayout : Layout :=
  { segmentBits := 1, segmentsPerSection := 2, segments := 16, mainStart := 64 }

/-- With two sections in reserve, three blocks written and one of them dropped, collection pays off
for half of what is dead, and the test says so. -/
theorem isWorthCollecting_exact_dropped : ∃ a₀ events a,
    create twoByTwoLayout = .ok (.ok a₀) ∧ Course a₀ events a ∧ a.table.live = 2 ∧
      a.PaysOff 90 50 ∧ a.isWorthCollecting 90 50 = .ok true := by
  obtain ⟨a₀, events, a, hcreate, hcourse, h⟩ := Course.of_leads twoByTwoLayout
    [.allocate (some Log.hotData) 5, .allocate (some Log.hotData) 6,
      .allocate (some Log.coldData) 7, .invalidate 64]
    (fun _ a => a.table.live = 2 && decide (a.reservedSegments < 2 ^ 32) && a.worthWords 90 50)
    (by decide +kernel)
  simp only [Bool.and_eq_true, decide_eq_true_eq] at h
  obtain ⟨⟨hlive, hfits⟩, hworth⟩ := h
  obtain ⟨-, hanswer, -⟩ := isWorthCollecting_exact hcreate hcourse 90 50
  obtain ⟨hwords, hpays⟩ := hanswer hfits
  exact ⟨a₀, events, a, hcreate, hcourse, hlive, hpays.mp hworth, hworth ▸ hwords⟩

/-- With `2 ^ 31` sections of two segments in reserve collection pays off in an area without a live
block, and the test gives no answer, although it does with two sections in reserve. -/
theorem isWorthCollecting_reserve_too_wide : ∃ a₀ a,
    create { twoByTwoLayout with reserved := 0x8000_0000 } = .ok (.ok a₀) ∧ Course a₀ [] a ∧
      a.PaysOff 0 50 ∧ a.isWorthCollecting 0 50 = .error .width ∧
      (a.withReserve 2).isWorthCollecting 0 50 = .ok true := by
  obtain ⟨a₀, events, a, hcreate, hcourse, h⟩ := Course.of_leads
    { twoByTwoLayout with reserved := 0x8000_0000 } []
    (fun events a => events.isEmpty && decide (a.blocks * 0 / 100 < a.blocks - a.table.live ∧
      a.geometry.segmentBlocks * (a.free.freeSegments - a.reservedSegments) <
        (a.blocks - a.table.live) * 50 / 100) &&
      decide (Guarded.trap? (a.isWorthCollecting 0 50) = some .width) &&
      ((a.withReserve 2).isWorthCollecting 0 50).toOption = some true) (by decide +kernel)
  simp only [Bool.and_eq_true, decide_eq_true_eq, List.isEmpty_iff] at h
  obtain ⟨⟨⟨rfl, hpays⟩, htrap⟩, hworth⟩ := h
  have ha := hcourse.tallied (create_sound hcreate).tallied
  exact ⟨a₀, a, hcreate, hcourse, (ha.paysOff_iff 0 50).mpr hpays,
    Guarded.eq_error_of_trap? htrap, Guarded.eq_ok_of_toOption hworth⟩

end Reclaim.Area
