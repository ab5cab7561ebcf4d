import Reclaim.Proofs.Victim.Background

/-!
# Repeated background searches

Background searches that follow each other without another operation in between cover the area: with
`D` sections that have a dirty segment and searches that look at `L` candidates, any `D / L` of them
in a row, rounded up, examine every such section (`Area.Searches.examines`). The order in which a
search comes to the sections is the order of the first one, rotated by `L` for each search before.

A row of that many searches takes at least one section if there is one to take, so after `D` such
rows every section that may be collected has been answered with, once, and every later search
answers with none (`Area.background_searches_cover`).
-/

namespace Reclaim.Area

/-- Background searches one after the other, the one at `i` in the area at `i`. -/
def Searches (log : ℕ → Option Log) (area : ℕ → Area) (answer : ℕ → Outcome ℕ) (n : ℕ) : Prop :=
  ∀ i < n, (area i).findVictim .background (log i) .wholeSection = .ok (answer i, area (i + 1))

/-- The number of searches with a budget that it takes to come to a number of sections. -/
def roundLength (sections budget : ℕ) : ℕ := (sections + budget - 1) / budget

/-- As many searches have the budget for all sections. -/
theorem le_roundLength_mul (sections : ℕ) {budget : ℕ} (h : 0 < budget) :
    sections ≤ budget * roundLength sections budget := by
  have hdiv := Nat.div_add_mod (sections + budget - 1) budget
  have hmod := Nat.mod_lt (sections + budget - 1) h
  unfold roundLength
  generalize budget * ((sections + budget - 1) / budget) = total at *
  omega

/-- It takes at least one search to come to a section. -/
theorem roundLength_pos {sections budget : ℕ} (h : 0 < budget) (hsections : 0 < sections) :
    0 < roundLength sections budget :=
  Nat.div_pos (by omega) h

/-! ## What stays the same -/

namespace Still

variable {a a' : Area} {sec : ℕ}

/-- The same sections have a dirty segment. -/
theorem dirtySections_eq (h : a.Still a') : a'.dirtySections = a.dirtySections := by
  unfold dirtySections
  rw [h.roster, h.geometry]

/-- The budget of background searches is the same. -/
theorem budget_eq (h : a.Still a') :
    a'.backgroundPolicy.budget = a.backgroundPolicy.budget := by
  rw [budget_backgroundPolicy, budget_backgroundPolicy, h.searchLimit]
  unfold DirtyLists.count
  rw [h.roster]

/-- The age bounds contain the same sections. -/
theorem spans (h : a.Still a') (hspans : ∀ sec ∈ a.dirtySections, a.table.Spans a.geometry sec) :
    ∀ sec ∈ a'.dirtySections, a'.table.Spans a'.geometry sec := by
  rw [h.dirtySections_eq, h.table, h.geometry]
  exact hspans

/-- A section may be collected as before, as long as it is not staged. -/
theorem collectable (h : a.Still a') (hsec : a.Collectable sec)
    (hunstaged : a'.dirty.staged.contains sec = false) : a'.Collectable sec where
  dirty := by
    rw [h.dirtySections_eq]
    exact hsec.dirty
  closed := by
    have hclosed := hsec.closed
    unfold isOpenSection at hclosed ⊢
    rw [h.heads, h.geometry]
    exact hclosed
  unclaimed := by
    rw [h.claimed]
    exact hsec.unclaimed
  unstaged := hunstaged
  worthwhile := by
    rw [h.table, h.geometry]
    exact hsec.worthwhile

/-- The areas of two sides can be exchanged. -/
theorem symm (h : a.Still a') : a'.Still a where
  geometry := h.geometry.symm
  searchLimit := h.searchLimit.symm
  table := h.table.symm
  heads := h.heads.symm
  claimed := h.claimed.symm
  roster c := (h.roster c).symm

end Still

/-- A section that may be collected after a background search could be before. -/
theorem BackgroundStep.collectable {a a' : Area} {r : Outcome ℕ} {sec : ℕ}
    (h : a.BackgroundStep r a') (hsec : a'.Collectable sec) : a.Collectable sec := by
  refine h.still.symm.collectable hsec ?_
  have hunstaged := hsec.unstaged
  rcases h.answer with ⟨-, hstaged, -⟩ | ⟨sec', -, -, hstaged⟩
  · rw [hstaged] at hunstaged
    exact hunstaged
  · rw [hstaged, Bool.or_eq_false_iff] at hunstaged
    exact hunstaged.2

/-- A section that a background search has answered with may not be collected any more. -/
theorem BackgroundStep.not_collectable {a a' : Area} {r : Outcome ℕ} {sec : ℕ} (ha : a.Sound)
    (h : a.BackgroundStep r a') (hsec : r = .ok (a.geometry.firstSegment sec)) :
    a.Collectable sec ∧ ¬a'.Collectable sec := by
  rcases h.answer with ⟨hnone, -⟩ | ⟨sec', hsome, hcollectable, hstaged⟩
  · rw [hnone] at hsec
    cases hsec
  · rw [hsome] at hsec
    have hsame := congrArg a.geometry.sectionOf (Except.ok.inj hsec)
    rw [Geometry.sectionOf_firstSegment ha.geometry, Geometry.sectionOf_firstSegment ha.geometry]
      at hsame
    subst hsame
    refine ⟨hcollectable, fun hafter => ?_⟩
    have hunstaged := hafter.unstaged
    rw [hstaged] at hunstaged
    simp at hunstaged

/-- Something is listed when a section has a dirty segment. -/
theorem Sound.budget_ne_zero {a : Area} (ha : a.Sound) (hlimit : 0 < a.searchLimit)
    (h : a.dirtySections.Nonempty) : a.backgroundPolicy.budget ≠ 0 := by
  have hcard : 0 < (a.dirty.roster .dirty).map.toFinset.card :=
    Finset.card_pos.mpr (Finset.image_nonempty.mp h)
  rw [budget_backgroundPolicy]
  unfold DirtyLists.count
  rw [(ha.dirty.roster .dirty).count_eq]
  omega

namespace Searches

variable {log : ℕ → Option Log} {area : ℕ → Area} {answer : ℕ → Outcome ℕ} {n : ℕ}

section

variable (h : Searches log area answer n) (ha : (area 0).Sound)
  (hbudget : (area 0).backgroundPolicy.budget ≠ 0)
  (hspans : ∀ sec ∈ (area 0).dirtySections, (area 0).table.Spans (area 0).geometry sec)

include h ha hbudget hspans

/-- Every area of a row is sound and differs from the first one in a cursor and in staged sections
alone. -/
theorem still {i : ℕ} (hi : i ≤ n) : (area i).Sound ∧ (area 0).Still (area i) := by
  induction i with
  | zero => exact ⟨ha, Still.refl _⟩
  | succ i ih =>
    obtain ⟨hsound, hstill⟩ := ih (by omega)
    have hsearch := h i hi
    have hstep := hsound.background_search (by rw [hstill.budget_eq]; exact hbudget)
      (hstill.spans hspans) hsearch
    exact ⟨(hsound.findVictim hsearch).1.sound hsound, hstill.trans hstep.still⟩

/-- Every search of a row is a step of a background search. -/
theorem step {i : ℕ} (hi : i < n) : (area i).BackgroundStep (answer i) (area (i + 1)) := by
  obtain ⟨hsound, hstill⟩ := still h ha hbudget hspans hi.le
  exact hsound.background_search (by rw [hstill.budget_eq]; exact hbudget) (hstill.spans hspans)
    (h i hi)

/-! ## Coverage -/

/-- Every search of a row goes on behind the one before. -/
theorem order_eq (hcard : (area 0).backgroundPolicy.budget ≤ (area 0).dirtySections.card) {i : ℕ}
    (hi : i ≤ n) :
    (area i).order = (area 0).order.rotate ((area 0).backgroundPolicy.budget * i) := by
  induction i with
  | zero => exact (List.rotate_zero _).symm
  | succ i ih =>
    obtain ⟨hsound, hstill⟩ := still h ha hbudget hspans (Nat.le_of_succ_le hi)
    have hsame := hstill.budget_eq
    have hnext := hsound.order_next (by rw [hsame]; exact hbudget)
      (by rw [hsame, hstill.dirtySections_eq]; exact hcard) (step h ha hbudget hspans hi)
    rw [hnext, ih (Nat.le_of_succ_le hi), List.rotate_rotate, hsame]
    rfl

/-- A row of searches that has the budget for all sections with a dirty segment examines each of
them. -/
theorem examines {i sec : ℕ} (hsec : sec ∈ (area 0).dirtySections)
    (hi : i + roundLength (area 0).dirtySections.card (area 0).backgroundPolicy.budget ≤ n) :
    ∃ j, i ≤ j ∧
      j < i + roundLength (area 0).dirtySections.card (area 0).backgroundPolicy.budget ∧
      (area j).Examines sec := by
  have hpos := Nat.pos_of_ne_zero hbudget
  have hround := le_roundLength_mul (area 0).dirtySections.card hpos
  have hlong := roundLength_pos hpos (Finset.card_pos.mpr ⟨sec, hsec⟩)
  obtain ⟨hsound, hstill⟩ := still h ha hbudget hspans (i := i) (by omega)
  have hsame := hstill.budget_eq
  have hlength := hsound.length_order
  rw [hstill.dirtySections_eq] at hlength
  have hmem : sec ∈ (area i).order := by
    rw [hsound.mem_order, hstill.dirtySections_eq]
    exact hsec
  generalize hL : (area 0).backgroundPolicy.budget = L at *
  generalize hq : roundLength (area 0).dirtySections.card L = q at *
  rcases Nat.lt_or_ge (area 0).dirtySections.card L with hlarge | hsmall
  · -- The first search of the row examines all of them.
    refine ⟨i, le_rfl, by omega, hsound.examines_of_mem_take ?_⟩
    rw [hsame, List.take_of_length_le (by omega)]
    exact hmem
  · -- The section is at place `t` of the order, and the search `t / L` later comes to it.
    obtain ⟨t, ht, rfl⟩ := List.mem_iff_getElem.mp hmem
    have hdiv := Nat.div_add_mod t L
    have hmod := Nat.mod_lt t hpos
    have hquot : t / L < q := by
      rw [Nat.div_lt_iff_lt_mul hpos, Nat.mul_comm]
      omega
    generalize t / L = later at *
    generalize t % L = place at *
    obtain ⟨hsound', hstill'⟩ := still h ha (hL ▸ hbudget) hspans (i := i + later) (by omega)
    have hstart := order_eq h ha (hL ▸ hbudget) hspans (hL ▸ hsmall) (i := i) (by omega)
    have horder := order_eq h ha (hL ▸ hbudget) hspans (hL ▸ hsmall) (i := i + later) (by omega)
    rw [hL, Nat.mul_add, ← List.rotate_rotate] at horder
    rw [hL] at hstart
    rw [← hstart] at horder
    refine ⟨i + later, by omega, by omega, hsound'.examines_of_mem_take ?_⟩
    rw [hstill'.budget_eq, hL, horder]
    refine List.mem_iff_getElem?.mpr ⟨place, ?_⟩
    rw [List.getElem?_take_of_lt hmod, List.getElem?_rotate (by omega), Nat.add_comm, hdiv,
      Nat.mod_eq_of_lt ht, List.getElem?_eq_getElem ht]

/-! ## Progress -/

/-- A section that may be collected late in a row could be collected before. -/
theorem collectable_of_le {i j sec : ℕ} (hij : i ≤ j) (hj : j ≤ n)
    (hsec : (area j).Collectable sec) : (area i).Collectable sec := by
  induction j, hij using Nat.le_induction with
  | base => exact hsec
  | succ j hij ih =>
    exact ih (by omega) ((step h ha hbudget hspans hj).collectable hsec)

/-- A section that may be collected early in a row and not late has been answered with in
between. -/
theorem exists_answer_of_lost {i j sec : ℕ} (hij : i ≤ j) (hj : j ≤ n)
    (hsec : (area i).Collectable sec) (hlost : ¬(area j).Collectable sec) :
    ∃ k, i ≤ k ∧ k < j ∧ answer k = .ok ((area 0).geometry.firstSegment sec) := by
  induction j, hij using Nat.le_induction with
  | base => exact absurd hsec hlost
  | succ j hij ih =>
    by_cases hmid : (area j).Collectable sec
    · -- The search at `j` is the one that takes the section away.
      have hstep := step h ha hbudget hspans hj
      obtain ⟨-, hstill⟩ := still h ha hbudget hspans (i := j) (by omega)
      have hstaged : (area (j + 1)).dirty.staged.contains sec = true := by
        by_contra hunstaged
        exact hlost (hstep.still.collectable hmid (Bool.eq_false_of_not_eq_true hunstaged))
      have hwas := hmid.unstaged
      rcases hstep.answer with ⟨-, hsame, -⟩ | ⟨sec', hsome, -, hnew⟩
      · rw [hsame, hwas] at hstaged
        cases hstaged
      · rw [hnew, hwas, Bool.or_false, decide_eq_true_iff] at hstaged
        rw [hstaged, ← hstill.geometry]
        exact ⟨j, hij, Nat.lt_succ_self j, hsome⟩
    · obtain ⟨k, hle, hlt, hk⟩ := ih (by omega) hmid
      exact ⟨k, hle, by omega, hk⟩

/-- A row of searches that has the budget for all sections with a dirty segment takes a section that
may be collected, if there is one. -/
theorem exists_lost {i sec : ℕ} (hsec : (area i).Collectable sec)
    (hi : i + roundLength (area 0).dirtySections.card (area 0).backgroundPolicy.budget ≤ n) :
    ∃ sec', (area i).Collectable sec' ∧
      ¬(area (i + roundLength (area 0).dirtySections.card
        (area 0).backgroundPolicy.budget)).Collectable sec' := by
  by_contra hkept
  simp only [not_exists, not_and, not_not] at hkept
  -- Nothing is taken in the row, so the search that examines the section finds it as it was.
  have hdirty := (collectable_of_le h ha hbudget hspans (Nat.zero_le i) (by omega) hsec).dirty
  obtain ⟨j, hle, hlt, hexamines⟩ := examines h ha hbudget hspans hdirty hi
  obtain ⟨hsound, -⟩ := still h ha hbudget hspans (i := j) (by omega)
  have hstep := step h ha hbudget hspans (i := j) (by omega)
  rcases hstep.answer with ⟨-, -, hnone⟩ | ⟨sec', hsome, -⟩
  · refine hnone sec hexamines ?_
    exact collectable_of_le h ha hbudget hspans hlt.le hi (hkept sec hsec)
  · obtain ⟨hwas, hlost⟩ := hstep.not_collectable hsound hsome
    refine hlost (collectable_of_le h ha hbudget hspans hlt hi (hkept sec' ?_))
    exact collectable_of_le h ha hbudget hspans hle (by omega) hwas

/-- Late in a row no section may be collected that could not be before. -/
theorem collectables_subset {i j : ℕ} (hij : i ≤ j) (hj : j ≤ n) :
    (area j).collectables ⊆ (area i).collectables := by
  intro sec hsec
  rw [mem_collectables] at hsec ⊢
  exact collectable_of_le h ha hbudget hspans hij hj hsec

/-- Every row that has the budget for all sections with a dirty segment leaves fewer sections that
may be collected, until there are none. -/
theorem card_collectables_le {m : ℕ}
    (hm : m * roundLength (area 0).dirtySections.card (area 0).backgroundPolicy.budget ≤ n) :
    (area (m * roundLength (area 0).dirtySections.card
      (area 0).backgroundPolicy.budget)).collectables.card ≤ (area 0).dirtySections.card - m := by
  generalize hq : roundLength (area 0).dirtySections.card (area 0).backgroundPolicy.budget = q
    at hm ⊢
  induction m with
  | zero =>
    rw [Nat.zero_mul, Nat.sub_zero]
    exact Finset.card_le_card fun sec hsec => (mem_collectables.mp hsec).dirty
  | succ m ih =>
    rw [Nat.succ_mul] at hm ⊢
    have hle := ih (by omega)
    have hsubset := collectables_subset h ha hbudget hspans (Nat.le_add_right (m * q) q) hm
    rcases Finset.eq_empty_or_nonempty (area (m * q)).collectables with hnone | ⟨sec, hsec⟩
    · rw [hnone, Finset.subset_empty] at hsubset
      rw [hsubset, Finset.card_empty]
      exact Nat.zero_le _
    · -- The row takes one of the sections that are left.
      have hcollectable := mem_collectables.mp hsec
      have hlost := exists_lost h ha hbudget hspans hcollectable (by rw [hq]; exact hm)
      rw [hq] at hlost
      obtain ⟨sec', hwas, hgone⟩ := hlost
      have hlt : (area (m * q + q)).collectables.card < (area (m * q)).collectables.card := by
        refine Finset.card_lt_card ((Finset.ssubset_iff_of_subset hsubset).mpr ⟨sec', ?_, ?_⟩)
        · exact mem_collectables.mpr hwas
        · exact mt mem_collectables.mp hgone
      omega

/-- After as many such rows as there are sections with a dirty segment, no section may be collected
any more. -/
theorem not_collectable {i : ℕ} (hi : i ≤ n)
    (hrounds : (area 0).dirtySections.card *
      roundLength (area 0).dirtySections.card (area 0).backgroundPolicy.budget ≤ i) (sec : ℕ) :
    ¬(area i).Collectable sec := by
  intro hsec
  have hle := card_collectables_le h ha hbudget hspans (hrounds.trans hi)
  rw [Nat.sub_self, Nat.le_zero, Finset.card_eq_zero] at hle
  have hsubset := collectables_subset h ha hbudget hspans hrounds hi
  rw [hle, Finset.subset_empty] at hsubset
  have hmem := mem_collectables.mpr hsec
  rw [hsubset] at hmem
  exact absurd hmem (Finset.notMem_empty sec)

/-! ## The searches go on -/

/-- The search after a row gives an answer if the first one resumed in the area and the ages of the
sections with a dirty segment fit. -/
theorem exists_next (hcursor : (area 0).cursors.costBenefit < (area 0).geometry.segments)
    (hfit : ∀ sec ∈ (area 0).dirtySections, (area 0).table.AgesFit (area 0).geometry sec)
    (next : Option Log) :
    ∃ r a', (area n).findVictim .background next .wholeSection = .ok (r, a') := by
  obtain ⟨hsound, hstill⟩ := still h ha hbudget hspans le_rfl
  -- A search leaves its cursor in the area.
  have hin : (area n).cursors.get ((area n).policy .background next .wholeSection).ranking <
      (area n).geometry.segments := by
    show (area n).cursors.costBenefit < _
    rw [hstill.geometry]
    cases n with
    | zero => exact hcursor
    | succ n =>
      rw [(step h ha hbudget hspans (Nat.lt_succ_self n)).cursor]
      obtain ⟨-, hstill'⟩ := still h ha hbudget hspans (Nat.le_succ n)
      rw [hstill'.geometry]
      exact cursorAfter_lt ha.geometry.segments_pos _ _
  refine hsound.exists_findVictim hin (fun htakes => by cases htakes.foreground) ?_
  intro _ _ seg hseg
  have hmem := List.mem_of_mem_filter hseg
  rw [hsound.examined_eq hin] at hmem
  have hlisted := Sweep.of_mem_firsts hsound.geometry.perSection_pos (List.mem_of_mem_take hmem)
  rw [hstill.table, hstill.geometry]
  refine hfit _ ?_
  rw [← hstill.dirtySections_eq, ← hstill.geometry]
  exact mem_dirtySections.mpr ⟨seg, hlisted, rfl⟩

end

end Searches

/-- Background searches can go on for any number of times if the first one resumes in the area and
the ages of the sections with a dirty segment fit. -/
theorem Sound.exists_searches {a : Area} (ha : a.Sound) (hbudget : a.backgroundPolicy.budget ≠ 0)
    (hspans : ∀ sec ∈ a.dirtySections, a.table.Spans a.geometry sec)
    (hcursor : a.cursors.costBenefit < a.geometry.segments)
    (hfit : ∀ sec ∈ a.dirtySections, a.table.AgesFit a.geometry sec) (log : ℕ → Option Log)
    (n : ℕ) : ∃ area answer, area 0 = a ∧ Searches log area answer n := by
  induction n with
  | zero => exact ⟨fun _ => a, fun _ => .error .unavailable, rfl, fun i hi => by cases hi⟩
  | succ n ih =>
    obtain ⟨area, answer, rfl, h⟩ := ih
    obtain ⟨r, a', hnext⟩ := h.exists_next ha hbudget hspans hcursor hfit (log n)
    refine ⟨Function.update area (n + 1) a', Function.update answer n r,
      Function.update_of_ne (Nat.succ_ne_zero n).symm _ _, fun i hi => ?_⟩
    rcases Nat.lt_succ_iff_lt_or_eq.mp hi with hlt | rfl
    · rw [Function.update_of_ne (by omega), Function.update_of_ne (by omega),
        Function.update_of_ne (by omega)]
      exact h i hlt
    · rw [Function.update_of_ne (by omega), Function.update_self, Function.update_self]
      exact hnext

/-! ## The main result -/

/-- From an area that a run from a created one reaches, with age bounds that contain the mean age of
every section with a dirty segment, background searches follow each other. Let there be `D > 0`
sections with a dirty segment, let a search look at `L` candidates at most, and let `q` be `D / L`,
rounded up. Any `q` searches in a row examine all these sections, no section is answered with twice,
the first `D q` searches answer with exactly those sections that had a dirty segment, were neither
open, under collection nor staged at the start and cost less than the largest cost, and every later
search answers with none. Searches can follow each other for any number of times if the first one
resumes in the area and the ages of the sections fit. -/
theorem background_searches_cover {log : ℕ → Option Log} {area : ℕ → Area} {answer : ℕ → Outcome ℕ}
    {n : ℕ} (ha : (area 0).Reachable)
    (hspans : ∀ sec ∈ (area 0).dirtySections, (area 0).table.Spans (area 0).geometry sec)
    (hdirty : (area 0).dirtySections.Nonempty) (h : Searches log area answer n) :
    let D := (area 0).dirtySections.card
    let L := min ((area 0).dirty.count .dirty) (area 0).searchLimit
    let q := (D + L - 1) / L
    (∀ i, i + q ≤ n → ∀ sec ∈ (area 0).dirtySections,
        ∃ j, i ≤ j ∧ j < i + q ∧ (area j).Examines sec) ∧
      (∀ i j start, i < j → j < n → answer i = .ok start → answer j ≠ .ok start) ∧
      (∀ i < n, ∀ start, answer i = .ok start →
        ∃ sec, start = (area 0).geometry.firstSegment sec ∧ (area 0).Collectable sec) ∧
      (D * q ≤ n → ∀ sec, (area 0).Collectable sec →
        ∃ i < D * q, answer i = .ok ((area 0).geometry.firstSegment sec)) ∧
      (∀ i < n, D * q ≤ i → answer i = .error .unavailable) ∧
      ((area 0).cursors.costBenefit < (area 0).geometry.segments →
        (∀ sec ∈ (area 0).dirtySections, (area 0).table.AgesFit (area 0).geometry sec) →
        ∀ log' m, ∃ area' answer', area' 0 = area 0 ∧ Searches log' area' answer' m) := by
  intro D L q
  have hsound := ha.sound
  have hbudget := hsound.budget_ne_zero ha.searchLimit_pos hdirty
  -- What a search answers with could be collected before, and not any more afterwards.
  have hanswer : ∀ i < n, ∀ start, answer i = .ok start →
      ∃ sec, start = (area 0).geometry.firstSegment sec ∧ (area i).Collectable sec ∧
        ¬(area (i + 1)).Collectable sec := by
    intro i hi start hstart
    obtain ⟨hsound', hstill⟩ := h.still hsound hbudget hspans hi.le
    have hstep := h.step hsound hbudget hspans hi
    rcases hstep.answer with ⟨hnone, -⟩ | ⟨sec, hsome, -⟩
    · rw [hnone] at hstart
      cases hstart
    · obtain ⟨hwas, hlost⟩ := hstep.not_collectable hsound' hsome
      rw [hsome] at hstart
      cases hstart
      exact ⟨sec, by rw [hstill.geometry], hwas, hlost⟩
  refine ⟨fun i hi sec hsec => h.examines hsound hbudget hspans hsec hi, ?_, ?_, ?_, ?_,
    hsound.exists_searches hbudget hspans⟩
  · intro i j start hij hj hi hj'
    obtain ⟨sec, rfl, -, hlost⟩ := hanswer i (by omega) start hi
    obtain ⟨sec', hsame, hwas, -⟩ := hanswer j hj _ hj'
    have hsame := congrArg (area 0).geometry.sectionOf hsame
    rw [Geometry.sectionOf_firstSegment hsound.geometry,
      Geometry.sectionOf_firstSegment hsound.geometry] at hsame
    rw [← hsame] at hwas
    exact hlost (h.collectable_of_le hsound hbudget hspans hij hj.le hwas)
  · intro i hi start hstart
    obtain ⟨sec, hsec, hwas, -⟩ := hanswer i hi start hstart
    exact ⟨sec, hsec, h.collectable_of_le hsound hbudget hspans (Nat.zero_le i) hi.le hwas⟩
  · intro hn sec hsec
    have hlost := h.not_collectable hsound hbudget hspans hn le_rfl sec
    obtain ⟨i, -, hi, hstart⟩ :=
      h.exists_answer_of_lost hsound hbudget hspans (Nat.zero_le _) hn hsec hlost
    exact ⟨i, hi, hstart⟩
  · intro i hi hlate
    rcases (h.step hsound hbudget hspans hi).answer with ⟨hnone, -⟩ | ⟨sec, -, hsec, -⟩
    · exact hnone
    · exact absurd hsec (h.not_collectable hsound hbudget hspans hi.le hlate sec)

/-- Four searches that look at one candidate each answer with both of two sections with a dirty
segment. -/
theorem background_searches_cover_both : ∃ area answer, (area 0).Reachable ∧
    (area 0).dirtySections = {0, 6} ∧ Searches (fun _ => none) area answer 4 ∧
    (∃ i < 4, answer i = .ok 0) ∧ ∃ i < 4, answer i = .ok 6 := by
  obtain ⟨a₀, events, a, hcreate, hrun, h⟩ := Run.of_reaches
    { tinyLayout with segments := 12, searchLimit := 1 }
    [.allocate (some Log.hotData) 5, .allocate (some Log.hotData) 6, .allocate (some Log.hotData) 7,
      .allocate (some Log.hotData) 8, .invalidate 64, .invalidate 77, .setAgeBounds 2 20]
    (fun _ a => (a.dirtySections = {0, 6} && a.dirty.count .dirty = 2 && a.searchLimit = 1 &&
        a.geometry.segmentsPerSection = 1 && a.cursors.costBenefit < a.geometry.segments) &&
      [0, 6].all fun sec =>
        a.table.oldest ≤ a.table.meanAge a.geometry sec &&
        a.table.meanAge a.geometry sec ≤ a.table.newest &&
        a.table.ageTotal a.geometry sec < 2 ^ 64 &&
        100 * a.table.meanAge a.geometry sec < 2 ^ 64 &&
        !a.isOpenSection sec && a.claimed = none && !a.dirty.staged.contains sec &&
        a.table.sectionCost a.geometry sec < 0xFFFF_FFFF)
    (by decide +kernel)
  simp only [Bool.and_eq_true, decide_eq_true_eq, List.all_eq_true, Bool.not_eq_true'] at h
  obtain ⟨⟨⟨⟨⟨hdirty, hcount⟩, hlimit⟩, hunit⟩, hcursor⟩, hsecs⟩ := h
  have hreachable : a.Reachable := ⟨_, a₀, events, hcreate, hrun⟩
  have hsec : ∀ sec ∈ a.dirtySections, a.table.Spans a.geometry sec ∧
      a.table.AgesFit a.geometry sec ∧ a.Collectable sec := by
    intro sec hmem
    obtain ⟨⟨⟨⟨⟨⟨⟨hold, hnew⟩, htotal⟩, hmean⟩, hclosed⟩, hclaimed⟩, hunstaged⟩, hcost⟩ :=
      hsecs sec (by simpa [hdirty] using hmem)
    exact ⟨⟨hold, hnew⟩, ⟨htotal, hmean⟩,
      ⟨hmem, hclosed, by rw [hclaimed]; nofun, hunstaged, hcost⟩⟩
  have hnonempty : a.dirtySections.Nonempty := by
    rw [hdirty]
    exact Finset.insert_nonempty 0 {6}
  obtain ⟨area, answer, rfl, hsearches⟩ := hreachable.sound.exists_searches
    (hreachable.sound.budget_ne_zero hreachable.searchLimit_pos hnonempty)
    (fun sec hmem => (hsec sec hmem).1) hcursor (fun sec hmem => (hsec sec hmem).2.1)
    (fun _ => none) 4
  obtain ⟨-, -, -, hreturned, -⟩ := background_searches_cover hreachable
    (fun sec hmem => (hsec sec hmem).1) hnonempty hsearches
  rw [hcount, hlimit, hdirty] at hreturned
  have hfirst : ∀ sec, (area 0).geometry.firstSegment sec = sec := fun sec => by
    unfold Geometry.firstSegment
    rw [hunit, Nat.mul_one]
  refine ⟨area, answer, hreachable, hdirty, hsearches, ?_, ?_⟩
  · have hzero := hreturned (by decide) 0 (hsec 0 (by rw [hdirty]; decide)).2.2
    rw [hfirst] at hzero
    exact hzero
  · have hsix := hreturned (by decide) 6 (hsec 6 (by rw [hdirty]; decide)).2.2
    rw [hfirst] at hsix
    exact hsix

end Reclaim.Area
