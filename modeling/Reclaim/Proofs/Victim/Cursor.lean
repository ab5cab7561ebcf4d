import Reclaim.Proofs.Victim.Safety

/-!
# Searches from any cursor

A cursor may have been set to any number. One inside a unit is rounded up and goes round the area,
so that only a cursor at the start of a unit past the end stays where it is. A sweep that resumes
there goes back to the start at once, and then comes to the first listed segment of each unit. When
it is asked for more, it takes the segment behind the last one of the area, again and again
(`Sweep.visits_past`): the end of the range is past the end of the map, which is what a search of
the map gives when it finds nothing.

That segment has no record, so a search that prices it traps (`Area.Overshoots`); it is passed over
only if the section behind the last one is the section under collection. No other search reaches
past a table. A cursor inside the last unit below `2 ^ 32` is not rounded up at all, since the start
of the next unit does not fit (`Area.CursorOverflows`): its search traps before it begins, even if
there is nothing to search. `Area.findVictim_from_any_cursor` shows that these are the two ways in
which a cursor can stop a search.
-/

namespace Reclaim

/-! ## Sweeps that resume past the end -/

namespace Sweep

variable {map : Bitmap} {unit resume : ℕ}

/-- A sweep that has gone back to the start takes a segment as long as it resumed past the end. -/
theorem next?_past (hmap : map.WellFormed) (hpast : map.size < resume) (offset : ℕ) :
    next? map unit resume ⟨offset, resume, true⟩ =
      some (map.next offset resume, ⟨behind unit (map.next offset resume), resume, true⟩) := by
  have hle := (Bitmap.next_spec hmap offset resume).le_stop
  have hlt : map.next offset resume < resume := by omega
  exact if_pos hlt

/-- When nothing is left to come to, such a sweep takes the segment behind the end of the map. -/
theorem visits_wrapped_past (hmap : map.WellFormed) (hunit : 0 < unit) (hsize : unit ∣ map.size)
    (hpast : map.size < resume) : ∀ (n offset : ℕ),
      visits map unit resume n ⟨offset, resume, true⟩ = (ahead map unit offset resume).take n ++
        List.replicate (n - (ahead map unit offset resume).length) map.size
  | 0, offset => by simp [visits]
  | n + 1, offset => by
    have hle := (Bitmap.next_spec hmap offset resume).le_stop
    obtain ⟨hend, hfound⟩ := ahead_of_next hmap hunit hsize offset resume
    have hmin : min resume map.size = map.size := Nat.min_eq_right hpast.le
    rw [hmin] at hle hend hfound
    unfold visits
    rw [next?_past hmap hpast]
    dsimp only
    rw [visits_wrapped_past hmap hunit hsize hpast n]
    rcases Nat.lt_or_eq_of_le hle with hlt | heq
    · rw [hfound hlt, List.take_succ_cons, List.length_cons, Nat.add_sub_add_right]
      rfl
    · -- Nothing lies ahead any more, here or behind the end of the map.
      have hbehind : ahead map unit (behind unit map.size) resume = [] := by
        refine ahead_eq_nil hunit fun s hs _ => Bitmap.contains_eq_false_of_size_le ?_
        unfold behind at hs
        have := Nat.mod_lt map.size hunit
        omega
      rw [hend heq.ge, heq, hbehind]
      simp [List.replicate_succ]

/-- What lies ahead in a range lies in the map. -/
theorem lt_size_of_mem_ahead {lo hi seg : ℕ} (hunit : 0 < unit) (h : seg ∈ ahead map unit lo hi) :
    seg < map.size := by
  have hmember := of_mem_firsts hunit h
  simp only [Bool.and_eq_true] at hmember
  exact Bitmap.lt_size_of_contains hmember.1.1

/-- Up to a number past the end of the map, the first members of all units lie ahead. -/
theorem ahead_zero_past (hunit : 0 < unit) (hpast : map.size < resume) :
    ahead map unit 0 resume = candidates map unit 0 := by
  unfold candidates ahead
  rw [Nat.zero_div, List.rotate_zero]
  refine firsts_congr hunit fun s _ => ?_
  cases hs : map.contains s with
  | false => rfl
  | true =>
    have hlt := Bitmap.lt_size_of_contains hs
    simp
    omega

/-- A sweep that resumes past the end comes to the first member of each unit, and then to the
segment behind the end of the map as often as is left. -/
theorem visits_past (hmap : map.WellFormed) (hunit : 0 < unit) (hsize : unit ∣ map.size)
    (hpast : map.size < resume) (n : ℕ) :
    visits map unit resume n ⟨resume, map.size, false⟩ = (candidates map unit 0).take n ++
      List.replicate (n - (candidates map unit 0).length) map.size := by
  rw [← ahead_zero_past hunit hpast, ← visits_wrapped_past hmap hunit hsize hpast n 0]
  -- Nothing lies between the resumption and the end, so the sweep goes back at once.
  have hnone : map.next resume map.size = map.size := by
    unfold Bitmap.next
    rw [Nat.min_self]
    exact if_pos hpast.le
  have hback : next? map unit resume ⟨resume, map.size, false⟩ =
      next? map unit resume ⟨0, resume, true⟩ := by
    have hlt : map.next 0 resume < resume := by
      have := (Bitmap.next_spec hmap 0 resume).le_stop
      omega
    have hpos : resume ≠ 0 := by omega
    simp [next?, hnone, hlt, hpos]
  cases n with
  | zero => rfl
  | succ n =>
    unfold visits
    rw [hback]

end Sweep

/-! ## Traps -/

namespace Guarded

variable {α β : Type} {t : Trap}

/-- An operation stops with one trap only, if it stops at all. -/
def TrapsOnly (t : Trap) (x : Guarded α) : Prop := ∀ t', x = .error t' → t' = t

/-- A value is no trap. -/
theorem trapsOnly_ok (t : Trap) (x : α) : TrapsOnly t (.ok x : Guarded α) := nofun

/-- Two steps stop with one trap only if each does. -/
theorem TrapsOnly.bind {x : Guarded α} {f : α → Guarded β} (hx : TrapsOnly t x)
    (hf : ∀ y, x = .ok y → TrapsOnly t (f y)) : TrapsOnly t (x >>= f) := by
  cases x with
  | error t' =>
    intro t'' h
    cases h
    exact hx t' rfl
  | ok y => exact hf y rfl

/-- A difference stops only by leaving its width. -/
theorem trapsOnly_minus (a b : ℕ) : TrapsOnly .width (minus a b) := by
  unfold minus TrapsOnly
  split_ifs <;> simp

/-- A check for 32 bits stops only by the number leaving its width. -/
theorem trapsOnly_fit32 (n : ℕ) : TrapsOnly .width (fit32 n) := by
  unfold fit32 TrapsOnly
  split_ifs <;> simp

/-- So does a check for 64 bits. -/
theorem trapsOnly_fit64 (n : ℕ) : TrapsOnly .width (fit64 n) := by
  unfold fit64 TrapsOnly
  split_ifs <;> simp

end Guarded

namespace SegmentTable

open Guarded (TrapsOnly)

variable {t : SegmentTable} {g : Geometry} {seg : ℕ} {p : Policy}

/-- Adding up the ages of segments with records stops only if the sum is too wide. -/
theorem trapsOnly_ageSum : ∀ {segs : List ℕ}, (∀ s ∈ segs, s < t.records.size) →
    TrapsOnly .width (t.ageSum segs)
  | [], _ => Guarded.trapsOnly_ok _ _
  | s :: segs, h => by
    unfold ageSum
    rw [get_eq (h s List.mem_cons_self), Guarded.ok_bind]
    exact (trapsOnly_ageSum fun k hk => h k (List.mem_cons_of_mem _ hk)).bind
      fun _ _ => Guarded.trapsOnly_fit64 _

/-- Scaling an age stops only by leaving a width. -/
theorem trapsOnly_scaledAge (t : SegmentTable) (age : ℕ) : TrapsOnly .width (t.scaledAge age) := by
  unfold scaledAge
  split_ifs
  · exact Guarded.trapsOnly_ok _ _
  · exact (Guarded.trapsOnly_minus _ _).bind fun _ _ => (Guarded.trapsOnly_fit64 _).bind fun _ _ =>
      (Guarded.trapsOnly_minus _ _).bind fun _ _ => Guarded.trapsOnly_minus _ _

/-- Costing a segment of the area stops only by leaving a width. -/
theorem trapsOnly_cost (hg : g.Valid) (hsize : t.records.size = g.segments)
    (hseg : seg < g.segments) (p : Policy) : TrapsOnly .width (t.cost g seg p) := by
  by_cases hp : p.reuse = .wholeSection ∧ p.ranking = .costBenefit
  · unfold cost
    rw [hp.1, hp.2]
    dsimp only
    unfold costBenefit sectionAge
    refine ((trapsOnly_ageSum (lt_of_mem_section hg hsize hseg)).bind
      fun _ _ => Guarded.trapsOnly_ok _ _).bind fun age _ => ?_
    rw [sectionLive_eq hg hsize hseg, Guarded.ok_bind]
    exact (trapsOnly_scaledAge _ age).bind fun _ _ => (Guarded.trapsOnly_minus _ _).bind
      fun _ _ => (Guarded.trapsOnly_fit32 _).bind fun _ _ => Guarded.trapsOnly_ok _ _
  · obtain ⟨c, hcost⟩ := cost_eq_of_not_costBenefit hg hsize hseg hp
    rw [hcost]
    exact Guarded.trapsOnly_ok _ _

/-- Pricing segments of the area stops only by leaving a width. -/
theorem trapsOnly_price (hg : g.Valid) (p : Policy) : ∀ {segs : List ℕ} {t : SegmentTable},
    t.records.size = g.segments → (∀ seg ∈ segs, seg < g.segments) →
    TrapsOnly .width (t.price g p segs)
  | [], _, _, _ => Guarded.trapsOnly_ok _ _
  | seg :: segs, t, hsize, hsegs => by
    unfold price
    refine (trapsOnly_cost hg hsize (hsegs seg List.mem_cons_self) p).bind fun x hcost => ?_
    obtain ⟨-, hrecords, -⟩ := cost_spec hg hcost
    exact (trapsOnly_price hg p (by rw [hrecords, hsize])
      fun s hs => hsegs s (List.mem_cons_of_mem _ hs)).bind fun _ _ => Guarded.trapsOnly_ok _ _

/-- The segment behind the last one has no record. -/
theorem get_segments (hsize : t.records.size = g.segments) :
    t.get g.segments = .error .index := by
  unfold get Guarded.fetch
  rw [Array.getElem?_eq_none hsize.le]

/-- The segment behind the last one comes first in its section. -/
theorem exists_sectionSegments (hg : g.Valid) :
    ∃ rest, g.sectionSegments (g.sectionOf g.segments) = g.segments :: rest := by
  obtain ⟨n, hn⟩ : ∃ n, g.segmentsPerSection = n + 1 :=
    Nat.exists_eq_succ_of_ne_zero hg.perSection_pos.ne'
  have hstart : g.firstSegment (g.sectionOf g.segments) = g.segments := Geometry.sections_mul hg
  unfold Geometry.sectionSegments
  rw [hstart, hn]
  exact ⟨_, List.range'_succ⟩

/-- The segment behind the last one cannot be costed. -/
theorem cost_segments (hg : g.Valid) (hsize : t.records.size = g.segments) (p : Policy) :
    t.cost g g.segments p = .error .index := by
  have hget := get_segments hsize
  obtain ⟨rest, hsection⟩ := exists_sectionSegments hg
  unfold cost
  split
  · rw [hget]
    rfl
  · unfold liveBlocks sectionLive
    rw [hsection]
    unfold liveIn
    rw [hget]
    split_ifs <;> rfl
  · unfold costBenefit sectionAge
    rw [hsection]
    unfold ageSum
    rw [hget]
    rfl

/-- A list with the segment behind the last one cannot be priced, though all others in it can. -/
theorem price_segments (hg : g.Valid) (p : Policy) :
    ∀ {segs : List ℕ} {t : SegmentTable}, t.Capped g → g.segments ∈ segs →
      (∀ seg ∈ segs, seg ≠ g.segments → seg < g.segments ∧
        (p.reuse = .wholeSection → p.ranking = .costBenefit → t.AgesFit g (g.sectionOf seg))) →
      t.price g p segs = .error .index
  | seg :: segs, t, ht, hmem, hsegs => by
    unfold price
    by_cases hseg : seg = g.segments
    · rw [hseg, cost_segments hg ht.size p]
      rfl
    · obtain ⟨hlt, hfit⟩ := hsegs seg List.mem_cons_self hseg
      obtain ⟨c, t₁, hcost⟩ := exists_cost hg ht hlt p hfit
      obtain ⟨-, hrecords, -⟩ := cost_spec hg hcost
      -- The segment behind the last one is among the rest, which cannot be priced.
      have hrest := price_segments hg p (ht.of_records hrecords)
        ((List.mem_cons.mp hmem).resolve_left (Ne.symm hseg)) fun s hs hne =>
          ⟨(hsegs s (List.mem_cons_of_mem _ hs) hne).1, fun hwhole hage =>
            ((hsegs s (List.mem_cons_of_mem _ hs) hne).2 hwhole hage).of_records hrecords⟩
      rw [hcost, Guarded.ok_bind]
      dsimp only
      rw [hrest]
      rfl

end SegmentTable

namespace Area

variable {a a' : Area} {trigger : Trigger} {log : Option Log} {reuse : Reuse}

/-! ## What a search examines -/

/-- A search that resumes past the end of the area and may look at more candidates than there are
units with a listed segment. The segment behind the last one is not passed over unless its section
is taken to be under collection. -/
structure Overshoots (a : Area) (trigger : Trigger) (log : Option Log) (reuse : Reuse) : Prop where
  /-- The search takes nothing over. -/
  scans : ¬a.TakesOver trigger log reuse
  /-- Its cursor is the start of a unit. -/
  aligned : a.cursors.get (a.policy trigger log reuse).ranking %
    (a.policy trigger log reuse).unit = 0
  /-- Its cursor lies past the end of the area. -/
  past : a.geometry.segments < a.cursors.get (a.policy trigger log reuse).ranking
  /-- It may look at more candidates than there are. -/
  few : (Sweep.candidates (a.dirty.roster (a.policy trigger log reuse).scanned).map
    (a.policy trigger log reuse).unit 0).length < (a.policy trigger log reuse).budget
  /-- The section behind the last one is not under collection. -/
  unclaimed : a.claimed ≠ some a.geometry.sections

/-- A search resumes past the end exactly if its cursor lies there, at the start of a unit. -/
theorem Sound.segments_lt_offset_iff (ha : a.Sound) :
    a.geometry.segments < (a.policy trigger log reuse).offset ↔
      a.cursors.get (a.policy trigger log reuse).ranking % (a.policy trigger log reuse).unit = 0 ∧
        a.geometry.segments < a.cursors.get (a.policy trigger log reuse).ranking := by
  have hpos := ha.geometry.segments_pos
  show a.geometry.segments < roundCursor (a.policy trigger log reuse).unit a.geometry.segments
    (a.cursors.get (a.policy trigger log reuse).ranking) ↔ _
  unfold roundCursor
  split_ifs with haligned
  · simp [haligned]
  · -- A cursor that is rounded up goes round the area.
    simp only [haligned, false_and, iff_false, Nat.not_lt]
    exact (Nat.mod_lt _ hpos).le

/-- The section behind the last one is passed over exactly if it is taken to be under collection. -/
theorem Sound.isPassedOver_sections (ha : a.Sound) (trigger : Trigger) :
    a.isPassedOver trigger a.geometry.sections = true ↔ a.claimed = some a.geometry.sections := by
  have hopen : a.isOpenSection a.geometry.sections = false := by
    rw [isOpenSection_eq_false_iff]
    intro log hsec
    have hlt := Geometry.sectionOf_lt ha.geometry (ha.lt_of_used (ha.heads log).used)
    omega
  have hstaged : a.dirty.staged.contains a.geometry.sections = false :=
    Bitmap.contains_eq_false_of_size_le ha.dirty.staged_size.le
  unfold isPassedOver isBusySection
  simp [hopen, hstaged]

/-- A search that resumes in the area examines segments of the area. -/
theorem Sound.lt_of_mem_examined (ha : a.Sound) {p : Policy} (hunit : 0 < p.unit)
    (hdvd : p.unit ∣ a.geometry.segments) (hoffset : p.offset ≤ a.geometry.segments) :
    ∀ seg ∈ a.examined p, seg < a.geometry.segments := by
  intro seg hseg
  have hsize := ha.size_roster p.scanned
  unfold examined at hseg
  rw [← hsize] at hdvd hoffset hseg ⊢
  rw [Sweep.visits_start (ha.dirty.roster p.scanned).map hunit hdvd _ (Or.inl hoffset)] at hseg
  rcases List.mem_append.mp (List.mem_of_mem_take hseg) with hahead | hbefore
  · exact Sweep.lt_size_of_mem_ahead hunit hahead
  · exact Sweep.lt_size_of_mem_ahead hunit hbefore

/-- A search that resumes past the end examines the candidates from the start of the area on, and
then the segment behind the last one as often as its budget has left. -/
theorem Sound.examined_past (ha : a.Sound) {p : Policy} (hunit : 0 < p.unit)
    (hdvd : p.unit ∣ a.geometry.segments) (hoffset : a.geometry.segments < p.offset) :
    a.examined p = (Sweep.candidates (a.dirty.roster p.scanned).map p.unit 0).take p.budget ++
      List.replicate (p.budget -
        (Sweep.candidates (a.dirty.roster p.scanned).map p.unit 0).length) a.geometry.segments := by
  have hsize := ha.size_roster p.scanned
  unfold examined
  rw [← hsize] at hdvd hoffset ⊢
  exact Sweep.visits_past (ha.dirty.roster p.scanned).map hunit hdvd hoffset p.budget

/-- Candidates are segments of the area. -/
theorem Sound.lt_of_mem_candidates (ha : a.Sound) {c : DirtyClass} {unit seg : ℕ}
    (hunit : 0 < unit) (h : seg ∈ Sweep.candidates (a.dirty.roster c).map unit 0) :
    seg < a.geometry.segments := by
  rw [← ha.size_roster c]
  exact Bitmap.lt_size_of_contains (Sweep.of_mem_firsts hunit h)

/-- What a search examines are segments of the area, but for the one behind the last, which is
among them exactly if the search resumes past the end and has more to look at than there is. -/
theorem Sound.mem_examined (ha : a.Sound) {p : Policy} (hunit : 0 < p.unit)
    (hdvd : p.unit ∣ a.geometry.segments) :
    (∀ seg ∈ a.examined p, seg ≠ a.geometry.segments → seg < a.geometry.segments) ∧
    (a.geometry.segments ∈ a.examined p ↔ a.geometry.segments < p.offset ∧
      (Sweep.candidates (a.dirty.roster p.scanned).map p.unit 0).length < p.budget) := by
  by_cases hoffset : a.geometry.segments < p.offset
  · have hcandidates : ∀ seg ∈ (Sweep.candidates (a.dirty.roster p.scanned).map p.unit 0).take
        p.budget, seg < a.geometry.segments :=
      fun seg hseg => ha.lt_of_mem_candidates hunit (List.mem_of_mem_take hseg)
    rw [ha.examined_past hunit hdvd hoffset]
    constructor
    · intro seg hseg hne
      rcases List.mem_append.mp hseg with hseg | hseg
      · exact hcandidates seg hseg
      · exact absurd (List.eq_of_mem_replicate hseg) hne
    · have hout : a.geometry.segments ∉
          (Sweep.candidates (a.dirty.roster p.scanned).map p.unit 0).take p.budget :=
        fun hmem => absurd (hcandidates _ hmem) (lt_irrefl _)
      rw [List.mem_append, List.mem_replicate]
      simp only [hout, hoffset, false_or, and_true, true_and]
      omega
  · have hinside := ha.lt_of_mem_examined hunit hdvd (Nat.le_of_not_lt hoffset)
    refine ⟨fun seg hseg _ => hinside seg hseg, ?_⟩
    constructor
    · exact fun hmem => absurd (hinside _ hmem) (lt_irrefl _)
    · exact fun h => absurd h.1 hoffset

/-- What a search selects from are segments of the area, but for the one behind the last, which is
among them exactly if the search overshoots. -/
theorem Sound.mem_eligible (ha : a.Sound) (hscans : ¬a.TakesOver trigger log reuse) :
    (∀ seg ∈ a.eligible trigger (a.examined (a.policy trigger log reuse)),
      seg ≠ a.geometry.segments → seg < a.geometry.segments) ∧
    (a.geometry.segments ∈ a.eligible trigger (a.examined (a.policy trigger log reuse)) ↔
      a.Overshoots trigger log reuse) := by
  obtain ⟨hunit, hdvd⟩ := ha.unit_spec trigger log reuse
  obtain ⟨hinside, hmem⟩ := ha.mem_examined hunit hdvd
  refine ⟨fun seg hseg => hinside seg (List.mem_of_mem_filter hseg), ?_⟩
  have hpassed := ha.isPassedOver_sections trigger
  have hsection : a.geometry.sectionOf a.geometry.segments = a.geometry.sections := rfl
  unfold eligible
  rw [List.mem_filter, hmem, ha.segments_lt_offset_iff, hsection, Bool.not_eq_true',
    ← Bool.not_eq_true, hpassed]
  constructor
  · rintro ⟨⟨⟨haligned, hpast⟩, hfew⟩, hunclaimed⟩
    exact ⟨hscans, haligned, hpast, hfew, hunclaimed⟩
  · rintro ⟨-, haligned, hpast, hfew, hunclaimed⟩
    exact ⟨⟨⟨haligned, hpast⟩, hfew⟩, hunclaimed⟩

/-- A search for single slots does not overshoot, since each listed segment is a candidate of its
own. -/
theorem Overshoots.whole (ha : a.Sound) (h : a.Overshoots trigger log reuse) :
    reuse = .wholeSection := by
  cases reuse with
  | wholeSection => rfl
  | slots =>
    have hroster := ha.dirty.roster (a.policy trigger log .slots).scanned
    have hfew : (Sweep.candidates (a.dirty.roster (a.policy trigger log .slots).scanned).map
        1 0).length < (a.policy trigger log .slots).budget := h.few
    have hbudget : (a.policy trigger log .slots).budget ≤
        (a.dirty.roster (a.policy trigger log .slots).scanned).count := Nat.min_le_left _ _
    rw [hroster.count_eq] at hbudget
    exact absurd (hbudget.trans (Sweep.card_le_length_candidates _ 0)) (Nat.not_le.mpr hfew)

/-- A search for single slots never rounds its cursor up. -/
theorem CursorOverflows.whole (h : a.CursorOverflows trigger log reuse) :
    reuse = .wholeSection := by
  cases reuse with
  | wholeSection => rfl
  | slots => exact absurd (Nat.mod_one _) h.unaligned

/-- A search that overshoots does not round its cursor up either. -/
theorem Overshoots.not_cursorOverflows (h : a.Overshoots trigger log reuse) :
    ¬a.CursorOverflows trigger log reuse := fun hwide => hwide.unaligned h.aligned

/-! ## Searches -/

/-- The unit of a policy that reclaims whole sections is a section. -/
theorem policy_unit : (a.policy trigger log reuse).reuse = .wholeSection →
    (a.policy trigger log reuse).unit = a.geometry.segmentsPerSection := by
  cases reuse with
  | wholeSection => exact fun _ => rfl
  | slots => nofun

/-- The ages that a search compares fit: a background search for a whole section compares those of
sections, and no other search compares any. -/
def AgesComparable (a : Area) (trigger : Trigger) (reuse : Reuse) : Prop :=
  reuse = .wholeSection → trigger = .background →
    ∀ sec < a.geometry.sections, a.table.AgesFit a.geometry sec

/-- If the ages that a search compares fit, so do those of a segment wherever its policy compares
them. -/
theorem AgesComparable.fit (h : a.AgesComparable trigger reuse) (ha : a.Sound) {seg : ℕ}
    (hseg : seg < a.geometry.segments) (hwhole : (a.policy trigger log reuse).reuse = .wholeSection)
    (hage : (a.policy trigger log reuse).ranking = .costBenefit) :
    a.table.AgesFit a.geometry (a.geometry.sectionOf seg) := by
  cases trigger with
  | background => exact h hwhole rfl _ (Geometry.sectionOf_lt ha.geometry hseg)
  | foreground =>
    -- A foreground search compares no ages.
    obtain rfl : reuse = .wholeSection := hwhole
    cases hage

/-- A search that does not overshoot and whose cursor can be rounded up stops only by leaving a
width, and gives an answer if the ages that it compares fit. -/
theorem Sound.findVictim_within (ha : a.Sound) (hcursor : ¬a.CursorOverflows trigger log reuse)
    (h : ¬a.Overshoots trigger log reuse) :
    Guarded.TrapsOnly .width (a.findVictim trigger log reuse) ∧
      (a.AgesComparable trigger reuse →
        ∃ r a', a.findVictim trigger log reuse = .ok (r, a')) := by
  -- An answer is no trap.
  have hanswers : (∃ r a', a.findVictim trigger log reuse = .ok (r, a')) →
      Guarded.TrapsOnly .width (a.findVictim trigger log reuse) := by
    rintro ⟨r, a', hfind⟩
    rw [hfind]
    exact Guarded.trapsOnly_ok _ _
  by_cases hbudget : (a.policy trigger log reuse).budget = 0
  · have hidle : ∃ r a', a.findVictim trigger log reuse = .ok (r, a') :=
      ⟨_, a, findVictim_eq_unavailable hcursor hbudget⟩
    exact ⟨hanswers hidle, fun _ => hidle⟩
  by_cases htakes : a.TakesOver trigger log reuse
  · have htaken := ha.exists_takeover hcursor htakes
    exact ⟨hanswers htaken, fun _ => htaken⟩
  obtain ⟨hinside, hout⟩ := ha.mem_eligible htakes
  have hsegs : ∀ seg ∈ a.eligible trigger (a.examined (a.policy trigger log reuse)),
      seg < a.geometry.segments := by
    intro seg hseg
    refine hinside seg hseg ?_
    rintro rfl
    exact h (hout.mp hseg)
  rw [findVictim_eq_searchVictim hcursor hbudget htakes, searchVictim_eq hbudget]
  constructor
  · cases hprice : a.table.price a.geometry (a.policy trigger log reuse)
      (a.eligible trigger (a.examined (a.policy trigger log reuse))) with
    | error t =>
      obtain ⟨bound, hbound⟩ := ha.maxCost_eq (policy_unit (a := a))
      have hwidth := SegmentTable.trapsOnly_price ha.geometry _ ha.table.size hsegs t hprice
      unfold selectFrom
      rw [hbound, Guarded.ok_bind, hprice, hwidth]
      exact fun t' ht' => (Except.error.inj ht').symm
    | ok x =>
      obtain ⟨r, a', hselect⟩ := ha.exists_selectFrom_of_price policy_unit hsegs hprice
      rw [hselect]
      exact Guarded.trapsOnly_ok _ _
  · intro hfit
    exact ha.exists_selectFrom policy_unit hsegs fun seg hseg => hfit.fit ha (hsegs seg hseg)

/-- A search that overshoots reaches past the table, unless it leaves a width before. -/
theorem Sound.findVictim_past (ha : a.Sound) (h : a.Overshoots trigger log reuse)
    (hfit : a.AgesComparable trigger reuse) :
    a.findVictim trigger log reuse = .error .index := by
  have hbudget : (a.policy trigger log reuse).budget ≠ 0 := Nat.ne_zero_of_lt h.few
  obtain ⟨hinside, hout⟩ := ha.mem_eligible h.scans
  obtain ⟨bound, hbound⟩ := ha.maxCost_eq (policy_unit (a := a))
  have hprice := SegmentTable.price_segments ha.geometry (a.policy trigger log reuse)
    ha.table.capped (hout.mpr h) fun seg hseg hne =>
      ⟨hinside seg hseg hne, hfit.fit ha (hinside seg hseg hne)⟩
  rw [findVictim_eq_searchVictim h.not_cursorOverflows hbudget h.scans, searchVictim_eq hbudget]
  unfold selectFrom
  rw [hbound, Guarded.ok_bind, hprice]
  rfl

/-- A search answers that nothing is available, or with a segment of the area. The section of the
segment has a live block, and no log writes into it. -/
theorem Sound.answer_spec (ha : a.Sound) {r : Outcome ℕ}
    (h : a.findVictim trigger log reuse = .ok (r, a')) :
    r = .error .unavailable ∨ ∃ seg, r = .ok seg ∧ seg < a.geometry.segments ∧
      a.table.sectionTotal a.geometry (a.geometry.sectionOf seg) ≠ 0 ∧
      a.isOpenSection (a.geometry.sectionOf seg) = false := by
  obtain ⟨-, hchosen⟩ := ha.findVictim h
  -- Sections are dealt with by what a search chooses.
  have hsection : ∀ seg, r = .ok seg → reuse = .wholeSection → seg < a.geometry.segments ∧
      a.table.sectionTotal a.geometry (a.geometry.sectionOf seg) ≠ 0 ∧
      a.isOpenSection (a.geometry.sectionOf seg) = false := by
    intro seg hr hwhole
    have hvictim := (hchosen seg hr hwhole).victim
    exact ⟨Geometry.lt_segments_of_sectionOf ha.geometry (hvictim.lt_sections ha) rfl,
      hvictim.live, hvictim.closed⟩
  cases answered_of_findVictim h with
  | idle => exact Or.inl rfl
  | takeover takes => exact Or.inr ⟨_, rfl, hsection _ rfl takes.whole⟩
  | fruitless => exact Or.inl rfl
  | @found bound f seg _ _ listed scans scan best claim =>
    cases reuse with
    | wholeSection =>
      obtain ⟨rfl, -⟩ := claim_cases claim
      exact Or.inr ⟨_, rfl, hsection _ rfl rfl⟩
    | slots =>
      -- The answer is the candidate itself.
      obtain ⟨hr, -⟩ := claim_cases claim
      have hanswer : r = .ok seg := hr.trans (congrArg _ (by
        show seg - seg % 1 = seg
        rw [Nat.mod_one, Nat.sub_zero]))
      have hscanned : (a.policy trigger log .slots).scanned ≠ .prefree := by
        cases log <;> simp [Area.policy, Policy.start, DirtyClass.ofLog?]
      rcases (scan_spec ha.tallied rfl scan).best seg best with hnone | hcandidate
      · cases hnone
      have hvictim := hcandidate.victim ha hscanned
      exact Or.inr ⟨seg, hanswer, DirtyLists.lt_of_contains ha.dirty hcandidate.listed,
        hvictim.live, hvictim.closed⟩

/-- A search that scans leaves the cursor of its ranking in the area. -/
theorem Sound.cursor_lt (ha : a.Sound) {r : Outcome ℕ}
    (h : a.findVictim trigger log reuse = .ok (r, a'))
    (hbudget : (a.policy trigger log reuse).budget ≠ 0) (hscans : ¬a.TakesOver trigger log reuse) :
    a'.cursors.get (a.policy trigger log reuse).ranking < a.geometry.segments := by
  rcases cursors_of_findVictim ha.geometry.segments_pos h with
    ⟨hidle | htakes, -⟩ | ⟨cursor, hlt, hset⟩
  · exact absurd hidle hbudget
  · exact absurd htakes hscans
  · rw [hset]
    cases (a.policy trigger log reuse).ranking with
    | greedy => exact hlt
    | costBenefit => exact hlt

/-- From any cursor, a search reaches past a table only if it overshoots, and one whose cursor
cannot be rounded up leaves the width of a cursor; neither befalls a search for single slots. If the
ages that it compares fit, a search that overshoots does reach past a table, and one that does
neither gives an answer. The answer is that nothing is available, or a segment of the area whose
section has a live block and is not open, and a search that scans leaves its cursor in the area. -/
theorem findVictim_from_any_cursor (ha : a.Reachable) (trigger : Trigger) (log : Option Log)
    (reuse : Reuse) :
    (a.findVictim trigger log reuse = .error .index → a.Overshoots trigger log reuse) ∧
    (a.CursorOverflows trigger log reuse → a.findVictim trigger log reuse = .error .width) ∧
    (a.Overshoots trigger log reuse ∨ a.CursorOverflows trigger log reuse →
      reuse = .wholeSection) ∧
    (a.AgesComparable trigger reuse →
      (a.Overshoots trigger log reuse → a.findVictim trigger log reuse = .error .index) ∧
      (¬a.Overshoots trigger log reuse → ¬a.CursorOverflows trigger log reuse →
        ∃ r a', a.findVictim trigger log reuse = .ok (r, a'))) ∧
    ∀ r a', a.findVictim trigger log reuse = .ok (r, a') →
      (r = .error .unavailable ∨ ∃ seg, r = .ok seg ∧ seg < a.geometry.segments ∧
        a.table.sectionTotal a.geometry (a.geometry.sectionOf seg) ≠ 0 ∧
        a.isOpenSection (a.geometry.sectionOf seg) = false) ∧
      ((a.policy trigger log reuse).budget ≠ 0 → ¬a.TakesOver trigger log reuse →
        a'.cursors.get (a.policy trigger log reuse).ranking < a.geometry.segments) := by
  have hsound := ha.sound
  refine ⟨fun hindex => ?_, findVictim_of_overflows,
    fun h => h.elim (Overshoots.whole hsound) CursorOverflows.whole,
    fun hfit => ⟨fun h => hsound.findVictim_past h hfit, fun h hcursor => ?_⟩,
    fun r a' h => ⟨hsound.answer_spec h, hsound.cursor_lt h⟩⟩
  · by_contra hwithin
    have hcursor : ¬a.CursorOverflows trigger log reuse := fun hwide =>
      nomatch hindex.symm.trans (findVictim_of_overflows hwide)
    cases (hsound.findVictim_within hcursor hwithin).1 .index hindex
  · exact (hsound.findVictim_within hcursor h).2 hfit

/-- Both cursors have been set past the end, the greedy one to the start of a section. The
foreground search reaches past a table, and the background search rounds its cursor up and gives an
answer. -/
theorem findVictim_from_any_cursor_both : ∃ a : Area, a.Reachable ∧
    a.geometry.segments < a.cursors.greedy ∧ a.geometry.segments < a.cursors.costBenefit ∧
    a.findVictim .foreground none .wholeSection = .error .index ∧
    ∃ r a', a.findVictim .background none .wholeSection = .ok (r, a') ∧
      (r = .error .unavailable ∨ ∃ seg, r = .ok seg ∧ seg < a.geometry.segments ∧
        a.table.sectionTotal a.geometry (a.geometry.sectionOf seg) ≠ 0 ∧
        a.isOpenSection (a.geometry.sectionOf seg) = false) ∧
      a'.cursors.costBenefit < a.geometry.segments := by
  obtain ⟨a₀, events, a, hcreate, hrun, h⟩ := Run.of_reaches
    { tinyLayout with segmentsPerSection := 2, segments := 16 }
    (List.replicate 4 (.allocate (some Log.hotData) 5) ++
      [.invalidate 64, .invalidate 66, .setCursor .greedy 18, .setCursor .costBenefit 19])
    (fun _ a =>
      let p := a.policy .foreground none .wholeSection
      a.geometry.segments < a.cursors.greedy && a.geometry.segments < a.cursors.costBenefit &&
      a.cursors.greedy % p.unit = 0 && a.cursors.costBenefit % p.unit ≠ 0 &&
      roundUp p.unit a.cursors.costBenefit < 2 ^ 32 &&
      (Sweep.candidates (a.dirty.roster p.scanned).map p.unit 0).length < p.budget &&
      a.claimed ≠ some a.geometry.sections && a.stagedVictim? = none &&
      (List.range a.geometry.sections).all fun sec =>
        a.table.ageTotal a.geometry sec < 2 ^ 64 && 100 * a.table.meanAge a.geometry sec < 2 ^ 64)
    (by decide +kernel)
  simp only [Bool.and_eq_true, decide_eq_true_eq, List.all_eq_true, List.mem_range] at h
  obtain ⟨⟨⟨⟨⟨⟨⟨⟨hgreedy, hcost⟩, haligned⟩, hunaligned⟩, hwide⟩, hfew⟩, hunclaimed⟩, hunstaged⟩,
    hages⟩ := h
  have hreachable : a.Reachable := ⟨_, a₀, events, hcreate, hrun⟩
  have hcomparable : ∀ trigger, a.AgesComparable trigger .wholeSection :=
    fun _ _ _ sec hsec => ⟨(hages sec hsec).1, (hages sec hsec).2⟩
  have hpast : a.Overshoots .foreground none .wholeSection :=
    ⟨fun takes => takes.staged hunstaged, haligned, hgreedy, hfew, hunclaimed⟩
  have hwithin : ¬a.Overshoots .background none .wholeSection := fun h => hunaligned h.aligned
  have hrounded : ¬a.CursorOverflows .background none .wholeSection := fun h =>
    absurd h.wide (Nat.not_le_of_lt hwide)
  obtain ⟨-, -, -, hforeground, -⟩ :=
    findVictim_from_any_cursor hreachable .foreground none .wholeSection
  obtain ⟨-, -, -, hbackground, hanswers⟩ :=
    findVictim_from_any_cursor hreachable .background none .wholeSection
  obtain ⟨r, a', hfind⟩ := (hbackground (hcomparable _)).2 hwithin hrounded
  obtain ⟨hanswer, hcursor⟩ := hanswers r a' hfind
  have hbudget : (a.policy .background none .wholeSection).budget ≠ 0 := Nat.ne_zero_of_lt hfew
  exact ⟨a, hreachable, hgreedy, hcost, (hforeground (hcomparable _)).1 hpast, r, a', hfind,
    hanswer, hcursor hbudget fun takes => nomatch takes.foreground⟩

/-- A search for the foreground that stops in an area of eight sections stops in a reachable one. -/
theorem exists_reachable_of_trap? (commands : List Command) (t : Trap)
    (h : Command.reaches { tinyLayout with segmentsPerSection := 2, segments := 16 } commands
      (fun _ a => Guarded.trap? (a.findVictim .foreground none .wholeSection) = some t)) :
    ∃ a : Area, a.Reachable ∧ a.findVictim .foreground none .wholeSection = .error t := by
  obtain ⟨a₀, events, a, hcreate, hrun, htrap⟩ := Run.of_reaches _ _ _ h
  exact ⟨a, ⟨_, a₀, events, hcreate, hrun⟩, Guarded.eq_error_of_trap? (of_decide_eq_true htrap)⟩

/-- Not every cursor is safe. From one at the start of a section past the end, a search may reach
past a table, and from one inside the last section below `2 ^ 32` it leaves the width of a
cursor. -/
theorem findVictim_not_safe :
    (¬∀ (a : Area) (trigger : Trigger) (log : Option Log) (reuse : Reuse), a.Reachable →
      a.findVictim trigger log reuse ≠ .error .index) ∧
    ¬∀ (a : Area) (trigger : Trigger) (log : Option Log) (reuse : Reuse), a.Reachable →
      a.findVictim trigger log reuse ≠ .error .width := by
  constructor
  · obtain ⟨a, hreachable, htrap⟩ := exists_reachable_of_trap?
      (List.replicate 4 (.allocate (some Log.hotData) 5) ++
        [.invalidate 64, .invalidate 66, .setCursor .greedy 18]) .index (by decide +kernel)
    exact fun hall => hall a _ _ _ hreachable htrap
  · obtain ⟨a, hreachable, htrap⟩ := exists_reachable_of_trap? [.setCursor .greedy 0xFFFF_FFFF]
      .width (by decide +kernel)
    exact fun hall => hall a _ _ _ hreachable htrap

end Area

end Reclaim
