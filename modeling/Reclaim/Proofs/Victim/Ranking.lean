import Reclaim.Proofs.Victim.Background

/-!
# The ranking of a background search

A background search compares the costs of sections that it has priced one after the other, and
pricing moves the age bounds. The section that it answers with is the cheapest by the cost that each
had when it was priced. The bounds that are left in the end may order two sections the other way
(`Area.background_search_not_one_scale`). They order them the same way if both were priced on
bounds that had been widened that far, and so they do throughout if the bounds contained all mean
ages from the start (`Area.background_search_ranking`).
-/

namespace Reclaim.Area

variable {a a' : Area} {log : Option Log} {start seg : ℕ} {before : List ℕ}

/-- The cost of a segment that is priced behind a list of others. -/
def costBehind (a : Area) (before : List ℕ) (seg : ℕ) : ℕ :=
  (a.table.widened a.geometry before).sectionCost a.geometry (a.geometry.sectionOf seg)

/-- A segment that is priced behind a list of others is priced on the age bounds of a table. -/
def PricedOn (a : Area) (t : SegmentTable) (before : List ℕ) (seg : ℕ) : Prop :=
  a.table.widened a.geometry (before ++ [seg]) = t

/-- The cost of a segment is the one of its section on the bounds that it is priced on. -/
theorem PricedOn.costBehind_eq {t : SegmentTable} (h : a.PricedOn t before seg) :
    a.costBehind before seg = t.sectionCost a.geometry (a.geometry.sectionOf seg) := by
  have hlast : a.table.widened a.geometry (before ++ [seg]) =
      (a.table.widened a.geometry before).observe
        ((a.table.widened a.geometry before).meanAge a.geometry (a.geometry.sectionOf seg)) :=
    SegmentTable.widened_append ..
  unfold PricedOn at h
  rw [← h, hlast, SegmentTable.sectionCost_observe]
  rfl

/-- In an area that a run from a created one reaches, a background search that answers with a
section leaves the age bounds widened to all sections that it priced, and has found none cheaper at
its own pricing than the answer was at its. On the bounds that are left, the answer costs no more
than any section that was priced on these bounds like the answer, and no such section with equally
many live blocks is older by a step; this holds of all sections that were priced if the bounds
contained their mean ages before the search. -/
theorem background_search_ranking (ha : a.Reachable)
    (h : a.findVictim .background log .wholeSection = .ok (.ok start, a')) :
    a'.table = a.table.widened a.geometry a.priced ∧
      ∃ before seg after, a.priced = before ++ seg :: after ∧
        start = a.geometry.firstSegment (a.geometry.sectionOf seg) ∧
        (∀ before' seg' after', a.priced = before' ++ seg' :: after' →
          a.costBehind before seg ≤ a.costBehind before' seg' ∧
          (a.PricedOn a'.table before seg → a.PricedOn a'.table before' seg' →
            a'.table.Outranks a.geometry (a.geometry.sectionOf seg) (a.geometry.sectionOf seg'))) ∧
        ((∀ seg' ∈ a.priced, a.table.Spans a.geometry (a.geometry.sectionOf seg')) →
          ∀ seg' ∈ a.priced, a'.table.Outranks a.geometry (a.geometry.sectionOf seg)
            (a.geometry.sectionOf seg')) := by
  have hsound := ha.sound
  have hbudget : a.backgroundPolicy.budget ≠ 0 := by
    intro hzero
    rw [findVictim_eq_unavailable (not_overflows_of_findVictim h) hzero] at h
    cases h
  obtain ⟨hsegs, ⟨-, hnone, -⟩ | ⟨x, present, dirty, hcheapest, hanswer, -, rfl⟩⟩ :=
    hsound.background_search_cases hbudget h
  · cases hnone
  obtain ⟨hmem, hworth, hleast⟩ := cheapest_eq_some hcheapest
  obtain ⟨before, after, hsplit, hcost⟩ := SegmentTable.mem_costsInTurn.mp hmem
  obtain ⟨seg, c⟩ := x
  obtain rfl : c = a.costBehind before seg := hcost
  obtain rfl : start = a.geometry.firstSegment (a.geometry.sectionOf seg) := Except.ok.inj hanswer
  have hleast : ∀ before' seg' after', a.priced = before' ++ seg' :: after' →
      a.costBehind before seg ≤ a.costBehind before' seg' := by
    intro before' seg' after' hsplit'
    exact hleast (seg', a.costBehind before' seg')
      (SegmentTable.mem_costsInTurn.mpr ⟨before', after', hsplit', rfl⟩)
  -- On the bounds that are left, which contain all mean ages, costs can be compared.
  have hspans : ∀ seg' ∈ a.priced,
      a.afterPricing.table.Spans a.geometry (a.geometry.sectionOf seg') :=
    fun seg' hseg' => SegmentTable.spans_widened hseg'
  have hrank : ∀ before' seg' after', a.priced = before' ++ seg' :: after' →
      a.PricedOn a.afterPricing.table before seg → a.PricedOn a.afterPricing.table before' seg' →
      a.afterPricing.table.Outranks a.geometry (a.geometry.sectionOf seg)
        (a.geometry.sectionOf seg') := by
    intro before' seg' after' hsplit' hon hon'
    have hle := hleast before' seg' after' hsplit'
    rw [hon.costBehind_eq] at hle
    rw [hon'.costBehind_eq] at hle
    refine SegmentTable.outranks_of_cost_le (hspans seg ?_) (hspans seg' ?_) ?_ hle
    · rw [hsplit]
      exact List.mem_append_right _ List.mem_cons_self
    · rw [hsplit']
      exact List.mem_append_right _ List.mem_cons_self
    · rw [← hon.costBehind_eq]
      exact hworth
  refine ⟨rfl, before, seg, after, hsplit, rfl,
    fun before' seg' after' hsplit' => ⟨hleast _ _ _ hsplit', hrank _ _ _ hsplit'⟩, ?_⟩
  intro hfrom seg' hseg'
  obtain ⟨before', after', hsplit'⟩ := List.append_of_mem hseg'
  -- Bounds that contain all mean ages stay as they are, so every segment is priced on them.
  have hon : ∀ early segOn late, a.priced = early ++ segOn :: late →
      a.PricedOn a.afterPricing.table early segOn := by
    intro early segOn late hpart
    have hsub : ∀ s ∈ early ++ [segOn], s ∈ a.priced := by
      intro s hs
      rw [hpart, List.append_cons]
      exact List.mem_append_left late hs
    have hkept : a.afterPricing.table = a.table := SegmentTable.widened_eq_self hfrom
    rw [hkept]
    exact SegmentTable.widened_eq_self fun s hs => hfrom s (hsub s hs)
  exact hrank _ _ _ hsplit' (hon _ _ _ hsplit) (hon _ _ _ hsplit')

/-- A run to a background search: the area before it, the answer, and the table after it, with a
property of the three. -/
theorem exists_background_search (l : Layout) (commands : List Command)
    (p : Area → ℕ → SegmentTable → Bool)
    (h : Command.reaches l commands (fun _ a =>
      match a.findVictim .background none .wholeSection with
      | .ok (.ok start, a') => p a start a'.table
      | _ => false) = true) :
    ∃ a a' : Area, ∃ start, a.Reachable ∧
      a.findVictim .background none .wholeSection = .ok (.ok start, a') ∧
      p a start a'.table = true := by
  obtain ⟨a₀, events, a, hcreate, hrun, h⟩ := Run.of_reaches l commands _ h
  split at h
  · next start a' hfind => exact ⟨a, a', start, ⟨l, a₀, events, hcreate, hrun⟩, hfind, h⟩
  · cases h

/-- Two sections of which half the blocks are live, the older one behind the other, when no age has
been seen that is less than the newest one. -/
def freshBounds : List Command :=
  List.replicate 4 (.allocate (some Log.hotData) 0) ++ [.invalidate 64, .invalidate 76,
    .setMtime 0 500, .setMtime 6 100, .setAgeBounds 0xFFFF_FFFF_FFFF_FFFF 1000]

/-- The search of `freshBounds` prices the older section last, and answers with the other one. -/
theorem background_search_ranking_fresh : ∃ a a' : Area, a.Reachable ∧
    a.findVictim .background none .wholeSection = .ok (.ok 0, a') ∧ a.priced = [0, 6] ∧
    a'.table = a.table.widened a.geometry [0, 6] ∧
    ∃ before seg after, [0, 6] = before ++ seg :: after ∧
      0 = a.geometry.firstSegment (a.geometry.sectionOf seg) ∧
      ∀ before' seg' after', [0, 6] = before' ++ seg' :: after' →
        a.costBehind before seg ≤ a.costBehind before' seg' := by
  obtain ⟨a, a', start, hreachable, hfind, h⟩ := exists_background_search
    { tinyLayout with segments := 9 } freshBounds
    (fun a start _ => start = 0 && a.priced = [0, 6]) (by decide +kernel)
  simp only [Bool.and_eq_true, decide_eq_true_eq] at h
  obtain ⟨rfl, hpriced⟩ := h
  obtain ⟨htable, before, seg, after, hsplit, hstart, hrank, -⟩ :=
    background_search_ranking hreachable hfind
  rw [hpriced] at htable hsplit hrank
  exact ⟨a, a', hreachable, hfind, hpriced, htable, before, seg, after, hsplit, hstart,
    fun before' seg' after' hsplit' => (hrank before' seg' after' hsplit').1⟩

/-- On the age bounds that a background search leaves, a section that it has priced may cost less
than its answer; and one that has equally many live blocks and is older by a step may be passed
over, even if the bounds contained all mean ages from the start. -/
theorem background_search_not_one_scale :
    (¬∀ (a a' : Area) (start : ℕ), a.Reachable → (∀ seg, (a.table.record seg).mtime < 2 ^ 32) →
      a.findVictim .background none .wholeSection = .ok (.ok start, a') → ∀ seg ∈ a.priced,
        a'.table.sectionCost a.geometry (a.geometry.sectionOf start) ≤
          a'.table.sectionCost a.geometry (a.geometry.sectionOf seg)) ∧
    ¬∀ (a a' : Area) (start : ℕ), a.Reachable → (∀ seg, (a.table.record seg).mtime < 2 ^ 32) →
      a.findVictim .background none .wholeSection = .ok (.ok start, a') →
      (∀ seg ∈ a.priced, a.table.Spans a.geometry (a.geometry.sectionOf seg)) →
      ∀ seg ∈ a.priced, a'.table.sectionTotal a.geometry (a.geometry.sectionOf seg) =
          a'.table.sectionTotal a.geometry (a.geometry.sectionOf start) →
        a'.table.agePercent (a'.table.meanAge a.geometry (a.geometry.sectionOf seg)) <
          a'.table.agePercent (a'.table.meanAge a.geometry (a.geometry.sectionOf start)) + 1 := by
  have hmtime : ∀ {a : Area}, (a.table.records.all fun s => s.mtime < 2 ^ 32) = true →
      ∀ seg, (a.table.record seg).mtime < 2 ^ 32 := by
    intro a hall seg
    unfold SegmentTable.record
    cases hget : a.table.records[seg]? with
    | none => exact Nat.two_pow_pos 32
    | some s =>
      obtain ⟨hlt, rfl⟩ := Array.getElem?_eq_some_iff.mp hget
      simpa using Array.all_eq_true.mp hall seg hlt
  constructor
  · intro hall
    obtain ⟨a, a', start, hreachable, hfind, h⟩ := exists_background_search
      { tinyLayout with segments := 9 } freshBounds
      (fun a start t => (a.table.records.all fun s => s.mtime < 2 ^ 32) && a.priced.contains 6 &&
        decide (t.sectionCost a.geometry (a.geometry.sectionOf 6) <
          t.sectionCost a.geometry (a.geometry.sectionOf start))) (by decide +kernel)
    simp only [Bool.and_eq_true, decide_eq_true_eq, List.contains_iff_mem] at h
    obtain ⟨⟨hages, hpriced⟩, hcheaper⟩ := h
    have hle := hall a a' start hreachable (hmtime hages) hfind 6 hpriced
    omega
  · intro hall
    -- Of the 128 blocks of each section 127 are live, and the ages differ by one step.
    obtain ⟨a, a', start, hreachable, hfind, h⟩ := exists_background_search
      { tinyLayout with segments := 9, segmentBits := 7 }
      (List.replicate 256 (.allocate (some Log.hotData) 0) ++ [.invalidate 64, .invalidate 832,
        .setMtime 0 98, .setMtime 6 97, .setAgeBounds 0 100])
      (fun a start t => (a.table.records.all fun s => s.mtime < 2 ^ 32) && a.priced = [0, 6] &&
        ([0, 6].all fun seg =>
          decide (a.table.oldest ≤ a.table.meanAge a.geometry (a.geometry.sectionOf seg)) &&
          decide (a.table.meanAge a.geometry (a.geometry.sectionOf seg) ≤ a.table.newest)) &&
        decide (t.sectionTotal a.geometry (a.geometry.sectionOf 6) =
          t.sectionTotal a.geometry (a.geometry.sectionOf start)) &&
        decide (t.agePercent (t.meanAge a.geometry (a.geometry.sectionOf start)) + 1 ≤
          t.agePercent (t.meanAge a.geometry (a.geometry.sectionOf 6)))) (by decide +kernel)
    simp only [Bool.and_eq_true, decide_eq_true_eq, List.all_eq_true] at h
    obtain ⟨⟨⟨⟨hages, hpriced⟩, hspans⟩, htotal⟩, holder⟩ := h
    have hlt := hall a a' start hreachable (hmtime (by simpa using hages)) hfind
      (by
        rw [hpriced]
        exact fun seg hseg => ⟨(hspans seg hseg).1, (hspans seg hseg).2⟩)
      6 (by rw [hpriced]; decide) htotal
    omega

end Reclaim.Area
