import Mathlib.Algebra.Order.Ring.Nat
import Reclaim.Proofs.Victim.Sweep
import Reclaim.Proofs.Victim.Search

/-!
# Sweeps that follow each other

The units with a member are gone through in a cycle. A sweep sees them in cyclic order from where it
resumes (`Sweep.visits_map_div`), whatever the number it resumes at, and the next one, which resumes
behind the last unit seen, sees them in the same order from there: the order has been rotated by
as many units as the sweep before has seen (`Sweep.cycle_roundCursor`).
-/

namespace Reclaim.Sweep

variable {map : Bitmap} {unit : ℕ}

/-! ## Units with a member -/

/-- Whether a unit has a member in a range. -/
def hasMember (map : Bitmap) (unit lo hi k : ℕ) : Bool :=
  (first? (fun s => map.contains s && lo ≤ s && s < hi) unit k).isSome

/-- The units with a member, in order. -/
def units (map : Bitmap) (unit : ℕ) : List ℕ :=
  (List.range (map.size / unit)).filter (hasMember map unit 0 map.size)

/-- The units with a member, in cyclic order: first those with a member at or after a number. -/
def cycle (map : Bitmap) (unit resume : ℕ) : List ℕ :=
  (units map unit).filter (hasMember map unit resume map.size) ++
    (units map unit).filter fun k => !hasMember map unit resume map.size k

/-- A unit has a member in a range when one of its numbers is a member of the map and in the
range. -/
theorem hasMember_iff (hunit : 0 < unit) {lo hi k : ℕ} :
    hasMember map unit lo hi k = true ↔
      ∃ s, s / unit = k ∧ map.contains s = true ∧ lo ≤ s ∧ s < hi := by
  unfold hasMember
  rw [← not_iff_not, Bool.not_eq_true, Option.isSome_eq_false_iff, Option.isNone_iff_eq_none,
    first?_eq_none_iff hunit]
  simp only [Bool.and_eq_false_iff, decide_eq_false_iff_not, not_exists, not_and]
  refine forall_congr' fun s => forall_congr' fun _ => ?_
  cases map.contains s with
  | false => simp
  | true =>
    simp only [Bool.true_eq_false, false_or, forall_const]
    omega

/-- The units with a member are those that a member lies in. -/
theorem mem_units (hunit : 0 < unit) (hsize : unit ∣ map.size) {k : ℕ} :
    k ∈ units map unit ↔ ∃ s, s / unit = k ∧ map.contains s = true := by
  unfold units
  rw [List.mem_filter, hasMember_iff hunit, List.mem_range]
  constructor
  · rintro ⟨-, s, hs, hmem, -⟩
    exact ⟨s, hs, hmem⟩
  · rintro ⟨s, rfl, hmem⟩
    have hlt := Bitmap.lt_size_of_contains hmem
    exact ⟨Nat.div_lt_div_of_lt_of_dvd hsize hlt, s, rfl, hmem, Nat.zero_le s, hlt⟩

/-- The units with a member are listed in ascending order. -/
theorem units_sorted (map : Bitmap) (unit : ℕ) : (units map unit).Pairwise (· < ·) :=
  List.pairwise_lt_range.filter _

/-- A list on which a property is never lost falls into the elements without the property and those
with it. -/
theorem filter_not_append_filter {p : ℕ → Bool} : ∀ {l : List ℕ},
    l.Pairwise (fun x y => p x = true → p y = true) →
      (l.filter fun x => !p x) ++ l.filter p = l
  | [], _ => rfl
  | x :: l, h => by
    obtain ⟨hx, hl⟩ := List.pairwise_cons.mp h
    cases hp : p x with
    | false =>
      rw [List.filter_cons_of_pos (by simp [hp]), List.filter_cons_of_neg (by simp [hp]),
        List.cons_append, filter_not_append_filter hl]
    | true =>
      have hall : ∀ y ∈ l, p y = true := fun y hy => hx y hy hp
      have hnone : (l.filter fun x => !p x) = [] :=
        List.filter_eq_nil_iff.mpr fun y hy => by simp [hall y hy]
      rw [List.filter_cons_of_neg (by simp [hp]), List.filter_cons_of_pos hp, hnone,
        List.filter_eq_self.mpr hall]
      rfl

/-- The units before a number come first in the list of units, and then those with a member at or
after it. -/
theorem units_eq_append (hunit : 0 < unit) (map : Bitmap) (resume : ℕ) :
    ((units map unit).filter fun k => !hasMember map unit resume map.size k) ++
      (units map unit).filter (hasMember map unit resume map.size) = units map unit := by
  refine filter_not_append_filter ?_
  refine (units_sorted map unit).imp_of_mem fun {x y} _ hy hlt h => ?_
  -- Members of a later unit are larger.
  obtain ⟨s, rfl, -, hle, -⟩ := (hasMember_iff hunit).mp h
  obtain ⟨s', rfl, hmem, -, hin⟩ := (hasMember_iff hunit).mp (List.mem_filter.mp hy).2
  have hss : s < s' := by
    by_contra hge
    exact absurd (Nat.div_le_div_right (Nat.le_of_not_lt hge)) (Nat.not_le.mpr hlt)
  exact (hasMember_iff hunit).mpr ⟨s', rfl, hmem, by omega, hin⟩

/-- The cyclic order is the list of units, rotated. -/
theorem cycle_eq_rotate (hunit : 0 < unit) (map : Bitmap) (resume : ℕ) :
    cycle map unit resume = (units map unit).rotate
      ((units map unit).filter fun k => !hasMember map unit resume map.size k).length := by
  have hrotate := List.rotate_append_length_eq
    ((units map unit).filter fun k => !hasMember map unit resume map.size k)
    ((units map unit).filter (hasMember map unit resume map.size))
  rw [units_eq_append hunit] at hrotate
  exact hrotate.symm

/-- Each unit with a member comes once in the cyclic order. -/
theorem length_cycle (hunit : 0 < unit) (map : Bitmap) (resume : ℕ) :
    (cycle map unit resume).length = (units map unit).length := by
  rw [cycle_eq_rotate hunit, List.length_rotate]

/-! ## What one sweep sees -/

/-- The units that a sweep of a range comes to are those with a member in it. -/
theorem ahead_map_div (hunit : 0 < unit) (map : Bitmap) (lo hi : ℕ) :
    (ahead map unit lo hi).map (· / unit) =
      (List.range (map.size / unit)).filter (hasMember map unit lo hi) :=
  firsts_map_div hunit _ _

/-- Units with a member in a range are units with a member. -/
theorem filter_units (hunit : 0 < unit) (map : Bitmap) (lo hi : ℕ) :
    (units map unit).filter (hasMember map unit lo hi) =
      (List.range (map.size / unit)).filter (hasMember map unit lo hi) := by
  unfold units
  rw [List.filter_filter]
  refine List.filter_congr fun k _ => ?_
  rw [Bool.and_eq_left_iff_imp]
  intro h
  obtain ⟨s, hs, hmem, -⟩ := (hasMember_iff hunit).mp h
  exact (hasMember_iff hunit).mpr
    ⟨s, hs, hmem, Nat.zero_le s, Bitmap.lt_size_of_contains hmem⟩

/-- The units of the members that a sweep comes to begin with the cyclic order of the units. -/
theorem cycle_prefix (hunit : 0 < unit) (map : Bitmap) (resume : ℕ) :
    cycle map unit resume <+:
      (ahead map unit resume map.size ++ ahead map unit 0 resume).map (· / unit) := by
  rw [List.map_append, ahead_map_div hunit, ahead_map_div hunit, ← filter_units hunit,
    ← filter_units hunit]
  unfold cycle
  refine (List.prefix_append_right_inj _).mpr ?_
  have hsplit := units_eq_append hunit map resume
  -- A unit without a member from the resumption on has one before it.
  have hbefore : ∀ k ∈ (units map unit).filter fun k => !hasMember map unit resume map.size k,
      hasMember map unit 0 resume k = true := by
    intro k hk
    obtain ⟨hk, hnone⟩ := List.mem_filter.mp hk
    obtain ⟨s, hs, hmem, -, hin⟩ := (hasMember_iff hunit).mp (List.mem_filter.mp hk).2
    refine (hasMember_iff hunit).mpr ⟨s, hs, hmem, Nat.zero_le s, ?_⟩
    by_contra hge
    have hhas := (hasMember_iff hunit).mpr ⟨s, hs, hmem, Nat.le_of_not_lt hge, hin⟩
    rw [hhas] at hnone
    cases hnone
  generalize ((units map unit).filter fun k => !hasMember map unit resume map.size k) = before at *
  rw [← hsplit, List.filter_append, List.filter_eq_self.mpr hbefore]
  exact List.prefix_append _ _

/-- A sweep that comes to no more members than there are units comes to the units in cyclic order
from where it resumes. -/
theorem visits_map_div (hmap : map.WellFormed) (hunit : 0 < unit) (hsize : unit ∣ map.size)
    (resume : ℕ) {n : ℕ} (hn : n ≤ (units map unit).length) :
    (visits map unit resume n ⟨resume, map.size, false⟩).map (· / unit) =
      (cycle map unit resume).take n := by
  have hprefix := cycle_prefix hunit map resume
  rw [← length_cycle hunit map resume] at hn
  have hlength := hprefix.length_le
  rw [List.length_map] at hlength
  rw [visits_start hmap hunit hsize n (Or.inr (by omega)), List.map_take]
  obtain ⟨rest, hrest⟩ := hprefix
  rw [← hrest, List.take_append_of_le_length hn]

/-- A sweep that may come to more segments comes to the same ones first. -/
theorem visits_take (map : Bitmap) (unit resume : ℕ) : ∀ {n m : ℕ} (s : Sweep), n ≤ m →
    (s.visits map unit resume m).take n = s.visits map unit resume n
  | 0, _, _, _ => List.take_zero
  | n + 1, m + 1, s, h => by
    unfold visits
    cases s.next? map unit resume with
    | none => exact List.take_nil
    | some found =>
      exact congrArg _ (visits_take map unit resume found.2 (Nat.le_of_succ_le_succ h))

/-! ## The next sweep -/

/-- The sweep after one that ended at a segment resumes at the start of the next unit, or at the
start of the map. -/
theorem roundCursor_behind (hunit : 0 < unit) {segments seg : ℕ} (hdvd : unit ∣ segments)
    (hseg : seg < segments) :
    roundCursor unit segments ((seg + 1) % segments) = (seg / unit + 1) * unit % segments := by
  obtain ⟨count, rfl⟩ := hdvd
  have hdiv := Nat.div_add_mod seg unit
  have hmod := Nat.mod_lt seg hunit
  have hend : (seg / unit + 1) * unit ≤ unit * count := by
    rw [Nat.mul_comm unit]
    refine Nat.mul_le_mul_right unit ?_
    rw [Nat.succ_le_iff, Nat.div_lt_iff_lt_mul hunit, Nat.mul_comm]
    exact hseg
  have hbehind : (seg / unit + 1) * unit = seg + unit - seg % unit := (behind_eq unit seg).symm
  by_cases hlast : seg + 1 = unit * count
  · -- The segment is the last one of the area.
    have hfull : (seg / unit + 1) * unit = unit * count := by
      refine le_antisymm hend ?_
      rw [hbehind]
      omega
    rw [hlast, hfull, Nat.mod_self]
    rfl
  · rw [Nat.mod_eq_of_lt (show seg + 1 < unit * count by omega)]
    unfold roundCursor
    by_cases haligned : (seg + 1) % unit = 0
    · have hsame : seg + 1 = (seg / unit + 1) * unit := by
        have hsucc := Nat.div_add_mod (seg + 1) unit
        have hquot : (seg + 1) / unit = seg / unit + 1 :=
          Nat.succ_div_of_dvd (Nat.dvd_of_mod_eq_zero haligned)
        rw [haligned, Nat.add_zero, hquot, Nat.mul_comm] at hsucc
        exact hsucc.symm
      rw [if_pos haligned, ← hsame, Nat.mod_eq_of_lt (by omega)]
    · have hquot : (seg + 1) / unit = seg / unit :=
        Nat.succ_div_of_not_dvd fun h => haligned (Nat.mod_eq_zero_of_dvd h)
      rw [if_neg haligned, roundUp_eq, hquot]

/-- In an ascending list, the elements up to one of them are those that stand up to its place. -/
theorem length_filter_le : ∀ {l : List ℕ} {i : ℕ}, l.Pairwise (· < ·) → (hi : i < l.length) →
    (l.filter fun x => x ≤ l[i]).length = i + 1
  | x :: l, 0, h, _ => by
    have hnone : (l.filter fun y => y ≤ x) = [] :=
      List.filter_eq_nil_iff.mpr fun y hy => by
        simpa using (List.pairwise_cons.mp h).1 y hy
    rw [List.getElem_cons_zero, List.filter_cons_of_pos (by simp), hnone]
    rfl
  | x :: l, i + 1, h, hi => by
    obtain ⟨hx, hl⟩ := List.pairwise_cons.mp h
    have hi' : i < l.length := Nat.lt_of_succ_lt_succ hi
    have hle : x ≤ l[i] := (hx l[i] (List.getElem_mem hi')).le
    rw [List.getElem_cons_succ, List.filter_cons_of_pos (by simpa using hle), List.length_cons,
      length_filter_le hl hi']

/-- From the start of the unit behind one with a member, the cyclic order is the list of units,
rotated behind that unit. -/
theorem cycle_behind (hunit : 0 < unit) (hsize : unit ∣ map.size) {i : ℕ}
    (hi : i < (units map unit).length) :
    cycle map unit (((units map unit)[i] + 1) * unit % map.size) =
      (units map unit).rotate (i + 1) := by
  have hsorted := units_sorted map unit
  have hk : (units map unit)[i] < map.size / unit :=
    List.mem_range.mp (List.mem_filter.mp (List.getElem_mem hi)).1
  have hend : ((units map unit)[i] + 1) * unit ≤ map.size := by
    rw [← Nat.div_mul_cancel hsize]
    exact Nat.mul_le_mul_right unit hk
  by_cases hlast : ((units map unit)[i] + 1) * unit = map.size
  · -- The unit is the last one of the map, so it is the last of the list.
    have hi' : i + 1 = (units map unit).length := by
      by_contra hne
      have hnext : i + 1 < (units map unit).length := by omega
      have hlt := List.pairwise_iff_getElem.mp hsorted i (i + 1) hi hnext (Nat.lt_succ_self i)
      have hk' : (units map unit)[i + 1] < map.size / unit :=
        List.mem_range.mp (List.mem_filter.mp (List.getElem_mem hnext)).1
      have : map.size / unit = (units map unit)[i] + 1 := by
        rw [← hlast, Nat.mul_div_cancel _ hunit]
      omega
    rw [hlast, Nat.mod_self, cycle_eq_rotate hunit, hi', List.rotate_length]
    have hnone : ((units map unit).filter fun k => !hasMember map unit 0 map.size k) = [] := by
      refine List.filter_eq_nil_iff.mpr fun k hk => ?_
      simp [(List.mem_filter.mp hk).2]
    rw [hnone, List.length_nil, List.rotate_zero]
  · rw [Nat.mod_eq_of_lt (by omega), cycle_eq_rotate hunit]
    -- The units without a member from there on are those up to the unit itself.
    have hfilter : ((units map unit).filter fun k =>
        !hasMember map unit (((units map unit)[i] + 1) * unit) map.size k) =
          (units map unit).filter fun k => k ≤ (units map unit)[i] := by
      refine List.filter_congr fun k hk => ?_
      obtain ⟨s, rfl, hmem⟩ := (mem_units hunit hsize).mp hk
      rw [Bool.eq_iff_iff, Bool.not_eq_true', ← Bool.not_eq_true, hasMember_iff hunit,
        decide_eq_true_iff, ← Nat.not_lt, not_iff_not]
      constructor
      · rintro ⟨s', hs', -, hle, -⟩
        rw [← hs', ← Nat.succ_le_iff]
        exact (Nat.le_div_iff_mul_le hunit).mpr hle
      · intro hlt
        exact ⟨s, rfl, hmem, (Nat.le_div_iff_mul_le hunit).mp hlt,
          Bitmap.lt_size_of_contains hmem⟩
    rw [hfilter, length_filter_le hsorted hi]

/-- A sweep that has come to a number of units and ended at a segment is followed by one that
resumes behind that segment, and sees the units in an order that is rotated by that number. -/
theorem cycle_roundCursor (hunit : 0 < unit) (hsize : unit ∣ map.size) (resume : ℕ) {n seg : ℕ}
    (hn : n < (units map unit).length) (hseg : seg < map.size)
    (hlast : (cycle map unit resume)[n]? = some (seg / unit)) :
    cycle map unit (roundCursor unit map.size ((seg + 1) % map.size)) =
      (cycle map unit resume).rotate (n + 1) := by
  rw [roundCursor_behind hunit hsize hseg]
  rw [cycle_eq_rotate hunit map resume] at hlast ⊢
  generalize ((units map unit).filter fun k => !hasMember map unit resume map.size k).length = j
    at hlast ⊢
  have hpos : 0 < (units map unit).length := by omega
  have hi := Nat.mod_lt (n + j) hpos
  rw [List.getElem?_rotate hn, List.getElem?_eq_getElem hi, Option.some.injEq] at hlast
  rw [← hlast, cycle_behind hunit hsize hi, List.rotate_rotate, ← List.rotate_mod,
    ← List.rotate_mod _ (j + (n + 1)), Nat.mod_add_mod]
  congr 2
  omega

end Reclaim.Sweep
