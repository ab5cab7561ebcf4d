import Mathlib.Data.List.Rotate
import Reclaim.Proofs.Bitmap
import Reclaim.Victim.Search

/-!
# The order of a sweep

A sweep comes to one member of each unit: in its first part to the first member of the unit that
does not lie before the resumption, in its second part to the first one that does. `Sweep.ahead`
lists the members that a part comes to, and a step of the sweep takes the first of what is left of
the two (`Sweep.taken_next?`), so that the sweep comes to them in order (`Sweep.visits_start`).

A sweep that resumes at the start of a unit comes to the first member of each unit that has one, in
cyclic order from there (`Sweep.candidates_eq`). One that resumes inside a unit may come to that
unit in both parts, and one that resumes past the end of the map goes on past it in its second part,
but only after it has come to every unit with a member.
-/

namespace Reclaim.Sweep

/-! ## The first members of units -/

/-- The first number with a property in a unit. -/
def first? (p : ℕ → Bool) (unit k : ℕ) : Option ℕ := (List.range' (k * unit) unit).find? p

/-- The first number with a property in each of a list of units that has one. -/
def firsts (p : ℕ → Bool) (unit : ℕ) (units : List ℕ) : List ℕ := units.filterMap (first? p unit)

/-- The first member of each unit of a map that has one, in cyclic order from the unit of a
number. -/
def candidates (map : Bitmap) (unit resume : ℕ) : List ℕ :=
  firsts map.contains unit ((List.range (map.size / unit)).rotate (resume / unit))

/-- The members of a range that a sweep of the range comes to: the first one of each unit that has
one there. -/
def ahead (map : Bitmap) (unit lo hi : ℕ) : List ℕ :=
  firsts (fun s => map.contains s && lo ≤ s && s < hi) unit (List.range (map.size / unit))

variable {p q : ℕ → Bool} {map : Bitmap} {unit k seg lo hi : ℕ}

/-- The first number with a property in a unit has the property, it lies in the unit, and no number
of the unit before it has the property. -/
theorem first?_eq_some_iff (hunit : 0 < unit) :
    first? p unit k = some seg ↔
      p seg = true ∧ seg / unit = k ∧ ∀ s, s / unit = k → s < seg → p s = false := by
  have hin : ∀ s, k * unit ≤ s ∧ s < k * unit + unit ↔ s / unit = k := by
    intro s
    rw [Nat.div_eq_iff hunit]
    omega
  unfold first?
  rw [List.find?_range'_eq_some, List.mem_range'_1, hin]
  refine and_congr_right fun _ => and_congr_right fun hseg => ?_
  constructor
  · intro h s hs hlt
    simpa using h s ((hin s).mpr hs).1 hlt
  · intro h s hle hlt
    have hs : s / unit = k := (hin s).mp ⟨hle, by have := (hin seg).mpr hseg; omega⟩
    rw [h s hs hlt]
    rfl

/-- A unit has no first number with a property when none of its numbers has the property. -/
theorem first?_eq_none_iff (hunit : 0 < unit) :
    first? p unit k = none ↔ ∀ s, s / unit = k → p s = false := by
  unfold first?
  rw [List.find?_eq_none]
  refine forall_congr' fun s => ?_
  rw [List.mem_range'_1, Nat.div_eq_iff hunit, Bool.not_eq_true]
  refine imp_congr_left ?_
  omega

/-- The first number with a property depends on the property in the unit alone. -/
theorem first?_congr (hunit : 0 < unit) (h : ∀ s, s / unit = k → p s = q s) :
    first? p unit k = first? q unit k := by
  cases hq : first? q unit k with
  | none =>
    rw [first?_eq_none_iff hunit] at hq ⊢
    exact fun s hs => (h s hs).trans (hq s hs)
  | some seg =>
    rw [first?_eq_some_iff hunit] at hq ⊢
    obtain ⟨hseg, hunit, hleast⟩ := hq
    exact ⟨(h seg hunit).trans hseg, hunit, fun s hs hlt => (h s hs).trans (hleast s hs hlt)⟩

/-- The units of a map are those before one of them, and those from there on. -/
theorem range_eq_append {n : ℕ} (h : k ≤ n) :
    List.range n = List.range k ++ List.range' k (n - k) := by
  have happend := List.range'_append_1 (s := 0) (m := k) (n := n - k)
  rw [Nat.zero_add, Nat.add_sub_cancel' h] at happend
  rw [List.range_eq_range', List.range_eq_range', happend]

/-- The units of a list add their first numbers one after the other. -/
theorem firsts_append (p : ℕ → Bool) (unit : ℕ) (ks ks' : List ℕ) :
    firsts p unit (ks ++ ks') = firsts p unit ks ++ firsts p unit ks' :=
  List.filterMap_append

/-- The first numbers depend on the property in the units of the list alone. -/
theorem firsts_congr (hunit : 0 < unit) {ks : List ℕ} (h : ∀ s, s / unit ∈ ks → p s = q s) :
    firsts p unit ks = firsts q unit ks := by
  refine List.filterMap_congr fun k hk => first?_congr hunit ?_
  rintro s rfl
  exact h s hk

/-- Units without a number that has the property add nothing. -/
theorem firsts_eq_nil (hunit : 0 < unit) {ks : List ℕ} (h : ∀ s, s / unit ∈ ks → p s = false) :
    firsts p unit ks = [] := by
  refine List.filterMap_eq_nil_iff.mpr fun k hk => (first?_eq_none_iff hunit).mpr ?_
  rintro s rfl
  exact h s hk

/-- The units that first numbers lie in are those with a number that has the property. -/
theorem firsts_map_div (hunit : 0 < unit) (p : ℕ → Bool) (ks : List ℕ) :
    (firsts p unit ks).map (· / unit) = ks.filter fun k => (first? p unit k).isSome := by
  unfold firsts
  induction ks with
  | nil => rfl
  | cons k ks ih =>
    cases hfirst : first? p unit k with
    | none => rw [List.filterMap_cons_none hfirst, List.filter_cons_of_neg (by simp [hfirst]), ih]
    | some seg =>
      rw [List.filterMap_cons_some hfirst, List.filter_cons_of_pos (by simp [hfirst]),
        List.map_cons, ih, ((first?_eq_some_iff hunit).mp hfirst).2.1]

/-- First numbers have the property. -/
theorem of_mem_firsts (hunit : 0 < unit) {ks : List ℕ} (h : seg ∈ firsts p unit ks) :
    p seg = true := by
  obtain ⟨k, -, hfirst⟩ := List.mem_filterMap.mp h
  exact ((first?_eq_some_iff hunit).mp hfirst).1

/-! ## What lies ahead -/

/-- The position behind the unit of a segment is the start of the next unit. -/
theorem behind_eq (unit seg : ℕ) : behind unit seg = (seg / unit + 1) * unit := by
  have hdiv := Nat.div_add_mod seg unit
  unfold behind
  rw [Nat.add_mul, Nat.one_mul, Nat.mul_comm (seg / unit)]
  omega

/-- Nothing lies ahead in a range without a member. -/
theorem ahead_eq_nil (hunit : 0 < unit)
    (h : ∀ s, lo ≤ s → s < hi → map.contains s = false) : ahead map unit lo hi = [] := by
  refine firsts_eq_nil hunit fun s _ => ?_
  by_cases hs : lo ≤ s ∧ s < hi
  · rw [h s hs.1 hs.2, Bool.false_and, Bool.false_and]
  · simp only [Bool.and_eq_false_iff, decide_eq_false_iff_not]
    omega

/-- From the start of a unit, the first members of the units from there on lie ahead. -/
theorem ahead_of_dvd (hunit : 0 < unit) (hlo : unit ∣ lo) (hle : lo ≤ map.size) (hi : ℕ) :
    ahead map unit lo hi = firsts (fun s => map.contains s && s < hi) unit
      (List.range' (lo / unit) (map.size / unit - lo / unit)) := by
  have hbelow : ∀ s, s / unit < lo / unit ↔ s < lo := fun s => by
    rw [Nat.div_lt_iff_lt_mul hunit, Nat.div_mul_cancel hlo]
  have hnone : firsts (fun s => map.contains s && lo ≤ s && s < hi) unit
      (List.range (lo / unit)) = [] := by
    refine firsts_eq_nil hunit fun s hs => ?_
    have hlt : s < lo := (hbelow s).mp (List.mem_range.mp hs)
    simp [Nat.not_le.mpr hlt]
  unfold ahead
  rw [range_eq_append (Nat.div_le_div_right hle), firsts_append, hnone, List.nil_append]
  refine firsts_congr hunit fun s hs => ?_
  have hge : lo ≤ s := by
    rw [← Nat.not_lt, ← hbelow, Nat.not_lt]
    exact (List.mem_range'_1.mp hs).1
  simp [hge]

/-- Up to the start of a unit, the first members of the units before it lie ahead. -/
theorem ahead_zero_of_dvd (hunit : 0 < unit) (hhi : unit ∣ hi) (hle : hi ≤ map.size) :
    ahead map unit 0 hi = firsts map.contains unit (List.range (hi / unit)) := by
  have hbelow : ∀ s, s / unit < hi / unit ↔ s < hi := fun s => by
    rw [Nat.div_lt_iff_lt_mul hunit, Nat.div_mul_cancel hhi]
  have hnone : firsts (fun s => map.contains s && 0 ≤ s && s < hi) unit
      (List.range' (hi / unit) (map.size / unit - hi / unit)) = [] := by
    refine firsts_eq_nil hunit fun s hs => ?_
    have hge : ¬s < hi := by
      rw [← hbelow, Nat.not_lt]
      exact (List.mem_range'_1.mp hs).1
    simp [hge]
  unfold ahead
  rw [range_eq_append (Nat.div_le_div_right hle), firsts_append, hnone, List.append_nil]
  refine firsts_congr hunit fun s hs => ?_
  have hlt : s < hi := (hbelow s).mp (List.mem_range.mp hs)
  simp [hlt]

/-- The least member of a range lies ahead, and after it what lies ahead behind its unit. -/
theorem ahead_eq_cons (hunit : 0 < unit) (hsize : unit ∣ map.size)
    (hseg : map.contains seg = true) (hlo : lo ≤ seg) (hhi : seg < hi)
    (hleast : ∀ s, lo ≤ s → s < seg → map.contains s = false) :
    ahead map unit lo hi = seg :: ahead map unit (behind unit seg) hi := by
  have hk : seg / unit < map.size / unit :=
    Nat.div_lt_div_of_lt_of_dvd hsize (Bitmap.lt_size_of_contains hseg)
  have hend : (seg / unit + 1) * unit ≤ map.size := (Nat.le_div_iff_mul_le hunit).mp hk
  have hbehind := ahead_of_dvd hunit (Nat.dvd_mul_left unit (seg / unit + 1)) hend hi
  rw [Nat.mul_div_cancel _ hunit] at hbehind
  have hrange : List.range (map.size / unit) = List.range (seg / unit) ++
      seg / unit :: List.range' (seg / unit + 1) (map.size / unit - (seg / unit + 1)) := by
    rw [range_eq_append hk.le, ← List.range'_succ]
    congr 2
    omega
  -- No number of the range before the member is one, in its own unit or in those before it.
  have hbefore : ∀ s, s < seg → (map.contains s && lo ≤ s && s < hi) = false := by
    intro s hlt
    by_cases hle : lo ≤ s
    · rw [hleast s hle hlt, Bool.false_and, Bool.false_and]
    · simp [hle]
  have hnone : firsts (fun s => map.contains s && lo ≤ s && s < hi) unit
      (List.range (seg / unit)) = [] := by
    refine firsts_eq_nil hunit fun s hs => hbefore s ?_
    by_contra hge
    have hdiv := Nat.div_le_div_right (c := unit) (Nat.le_of_not_lt hge)
    exact absurd (List.mem_range.mp hs) (Nat.not_lt.mpr hdiv)
  have hfirst : first? (fun s => map.contains s && lo ≤ s && s < hi) unit (seg / unit) =
      some seg :=
    (first?_eq_some_iff hunit).mpr ⟨by simp [hseg, hlo, hhi], rfl, fun s _ => hbefore s⟩
  rw [behind_eq, hbehind]
  unfold ahead
  rw [hrange, firsts_append, hnone, List.nil_append, firsts, List.filterMap_cons_some hfirst]
  refine congrArg _ (firsts_congr hunit fun s hs => ?_)
  have hle : lo ≤ s := by
    by_contra hlt
    have hdiv := Nat.div_le_div_right (c := unit) (show s ≤ seg by omega)
    have := (List.mem_range'_1.mp hs).1
    omega
  simp [hle]

/-- What lies ahead in a range begins with the least member of the range. -/
theorem ahead_of_next (hmap : map.WellFormed) (hunit : 0 < unit) (hsize : unit ∣ map.size)
    (lo hi : ℕ) :
    (min hi map.size ≤ map.next lo hi → ahead map unit lo hi = []) ∧
      (map.next lo hi < min hi map.size → ahead map unit lo hi =
        map.next lo hi :: ahead map unit (behind unit (map.next lo hi)) hi) := by
  obtain ⟨-, hbefore, hfound⟩ := Bitmap.next_spec hmap lo hi
  refine ⟨fun hend => ahead_eq_nil hunit fun s hlo hhi => ?_, fun hlt => ?_⟩
  · by_cases hs : s < map.size
    · exact hbefore s hlo (lt_of_lt_of_le (lt_min hhi hs) hend)
    · exact Bitmap.contains_eq_false_of_size_le (Nat.le_of_not_lt hs)
  · obtain ⟨hlo, hmem⟩ := hfound hlt
    exact ahead_eq_cons hunit hsize hmem hlo (lt_of_lt_of_le hlt (Nat.min_le_left _ _)) hbefore

/-- The candidates in cyclic order from the start of a unit are those ahead of it, and then those
before it. -/
theorem candidates_eq (hunit : 0 < unit) {resume : ℕ} (hresume : unit ∣ resume)
    (hle : resume ≤ map.size) :
    candidates map unit resume = ahead map unit resume map.size ++ ahead map unit 0 resume := by
  have hrotate := List.rotate_append_length_eq (List.range (resume / unit))
    (List.range' (resume / unit) (map.size / unit - resume / unit))
  rw [List.length_range] at hrotate
  unfold candidates
  rw [range_eq_append (Nat.div_le_div_right hle), hrotate, firsts_append,
    ahead_of_dvd hunit hresume hle, ahead_zero_of_dvd hunit hresume hle]
  -- Members lie in the map.
  refine congrArg (· ++ _) (firsts_congr hunit fun s _ => ?_)
  cases hs : map.contains s with
  | false => rfl
  | true => simp [Bitmap.lt_size_of_contains hs]

/-- No unit has two candidates. -/
theorem nodup_candidates (hunit : 0 < unit) (map : Bitmap) (resume : ℕ) :
    (candidates map unit resume).Nodup := by
  refine List.Nodup.of_map (· / unit) ?_
  unfold candidates
  rw [firsts_map_div hunit]
  exact (List.nodup_rotate.mpr List.nodup_range).filter _

/-- A sweep has a candidate in the unit of every member. -/
theorem exists_mem_candidates (hunit : 0 < unit)
    (hsize : unit ∣ map.size) (hseg : map.contains seg = true) (resume : ℕ) :
    ∃ s ∈ candidates map unit resume, s / unit = seg / unit := by
  have hlt : seg / unit < map.size / unit :=
    Nat.div_lt_div_of_lt_of_dvd hsize (Bitmap.lt_size_of_contains hseg)
  have hsome : (first? map.contains unit (seg / unit)).isSome = true := by
    by_contra hnone
    rw [Bool.not_eq_true, Option.isSome_eq_false_iff, Option.isNone_iff_eq_none] at hnone
    have habsent := (first?_eq_none_iff hunit).mp hnone seg rfl
    rw [hseg] at habsent
    cases habsent
  have hmem : seg / unit ∈ (candidates map unit resume).map (· / unit) := by
    unfold candidates
    rw [firsts_map_div hunit, List.mem_filter, List.mem_rotate, List.mem_range]
    exact ⟨hlt, hsome⟩
  exact List.mem_map.mp hmem

/-- In units of one segment every member is a candidate. -/
theorem card_le_length_candidates (map : Bitmap) (resume : ℕ) :
    map.toFinset.card ≤ (candidates map 1 resume).length := by
  have hsubset : map.toFinset ⊆ (candidates map 1 resume).toFinset := by
    intro seg hseg
    rw [Bitmap.mem_toFinset] at hseg
    obtain ⟨s, hs, hsame⟩ := exists_mem_candidates Nat.one_pos (Nat.one_dvd _) hseg resume
    rw [Nat.div_one, Nat.div_one] at hsame
    rw [List.mem_toFinset, ← hsame]
    exact hs
  exact (Finset.card_le_card hsubset).trans (List.toFinset_card_le _)

/-! ## Steps of a sweep -/

/-- A sweep goes to the end of the map, and once it has gone back to the start, to where it
resumed. -/
def Bounded (map : Bitmap) (resume : ℕ) (s : Sweep) : Prop :=
  s.stop = if s.wrapped then resume else map.size

/-- The members that a sweep still comes to. -/
def upcoming (map : Bitmap) (unit resume : ℕ) (s : Sweep) : List ℕ :=
  ahead map unit s.offset s.stop ++ if s.wrapped then [] else ahead map unit 0 resume

/-- What a step of a sweep can give. -/
inductive Taken (map : Bitmap) (unit resume : ℕ) (s : Sweep) : Option (ℕ × Sweep) → Prop
  /-- The sweep comes to no member any more. -/
  | nothing (upcoming : s.upcoming map unit resume = []) : Taken map unit resume s none
  /-- The first member that the sweep still comes to. -/
  | member {seg : ℕ} {s' : Sweep} (bounded : s'.Bounded map resume) (inside : seg < map.size)
    (upcoming : s.upcoming map unit resume = seg :: s'.upcoming map unit resume) :
    Taken map unit resume s (some (seg, s'))
  /-- A segment past the end of the map, for a sweep that has resumed past it and comes to no member
  any more. -/
  | outside {seg : ℕ} {s' : Sweep} (upcoming : s.upcoming map unit resume = [])
    (resumed : map.size < resume) : Taken map unit resume s (some (seg, s'))

/-- A step of a sweep that has gone back to the start. -/
theorem taken_wrapped (hmap : map.WellFormed) (hunit : 0 < unit) (hsize : unit ∣ map.size)
    (offset resume : ℕ) : Taken map unit resume ⟨offset, resume, true⟩
      (next? map unit resume ⟨offset, resume, true⟩) := by
  obtain ⟨hend, hfound⟩ := ahead_of_next hmap hunit hsize offset resume
  have hupcoming : ∀ lo, upcoming map unit resume ⟨lo, resume, true⟩ = ahead map unit lo resume :=
    fun _ => List.append_nil _
  by_cases hlt : map.next offset resume < resume
  · have hnext : next? map unit resume ⟨offset, resume, true⟩ =
        some (map.next offset resume, ⟨behind unit (map.next offset resume), resume, true⟩) :=
      if_pos hlt
    rw [hnext]
    by_cases hin : map.next offset resume < map.size
    · refine .member rfl hin ?_
      rw [hupcoming, hupcoming]
      exact hfound (lt_min hlt hin)
    · have hout : map.size ≤ map.next offset resume := Nat.le_of_not_lt hin
      refine .outside ?_ (lt_of_le_of_lt hout hlt)
      rw [hupcoming]
      exact hend ((Nat.min_le_right _ _).trans hout)
  · have hnext : next? map unit resume ⟨offset, resume, true⟩ = none := by
      simp [next?, hlt]
    rw [hnext]
    refine .nothing ?_
    rw [hupcoming]
    exact hend ((Nat.min_le_left _ _).trans (Nat.le_of_not_lt hlt))

/-- A step of a sweep that has not gone back to the start. At the end of the map it goes back. -/
theorem taken_first (hmap : map.WellFormed) (hunit : 0 < unit) (hsize : unit ∣ map.size)
    (offset resume : ℕ) : Taken map unit resume ⟨offset, map.size, false⟩
      (next? map unit resume ⟨offset, map.size, false⟩) := by
  obtain ⟨hend, hfound⟩ := ahead_of_next hmap hunit hsize offset map.size
  rw [Nat.min_self] at hend hfound
  by_cases hlt : map.next offset map.size < map.size
  · have hnext : next? map unit resume ⟨offset, map.size, false⟩ =
        some (map.next offset map.size,
          ⟨behind unit (map.next offset map.size), map.size, false⟩) :=
      if_pos hlt
    rw [hnext]
    exact .member rfl hlt (congrArg (· ++ ahead map unit 0 resume) (hfound hlt))
  · -- What is upcoming lies before the resumption, as for a sweep that has gone back.
    have hupcoming : upcoming map unit resume ⟨offset, map.size, false⟩ =
        upcoming map unit resume ⟨0, resume, true⟩ := by
      unfold upcoming
      rw [hend (Nat.le_of_not_lt hlt)]
      exact (List.append_nil _).symm
    have hnext : next? map unit resume ⟨offset, map.size, false⟩ =
        next? map unit resume ⟨0, resume, true⟩ := by
      by_cases hlt' : map.next 0 resume < resume
      · simp [next?, hlt, hlt', Nat.ne_zero_of_lt hlt']
      · simp [next?, hlt, hlt']
    have htaken := taken_wrapped hmap hunit hsize 0 resume
    rw [hnext]
    generalize next? map unit resume ⟨0, resume, true⟩ = found at htaken ⊢
    cases htaken with
    | nothing upcoming => exact .nothing (hupcoming.trans upcoming)
    | member bounded inside upcoming => exact .member bounded inside (hupcoming.trans upcoming)
    | outside upcoming resumed => exact .outside (hupcoming.trans upcoming) resumed

/-- A step of a sweep takes the first member that the sweep still comes to. Only a sweep that has
resumed past the end of the map takes anything else. -/
theorem taken_next? (hmap : map.WellFormed) (hunit : 0 < unit) (hsize : unit ∣ map.size)
    {resume : ℕ} {s : Sweep} (hs : s.Bounded map resume) :
    Taken map unit resume s (s.next? map unit resume) := by
  obtain ⟨offset, stop, wrapped⟩ := s
  cases wrapped with
  | true =>
    obtain rfl : stop = resume := hs
    exact taken_wrapped hmap hunit hsize offset stop
  | false =>
    obtain rfl : stop = map.size := hs
    exact taken_first hmap hunit hsize offset resume

/-! ## What a sweep comes to -/

/-- The segments that a sweep comes to, at most a number of them. -/
def visits (map : Bitmap) (unit resume : ℕ) : ℕ → Sweep → List ℕ
  | 0, _ => []
  | n + 1, s =>
    match s.next? map unit resume with
    | none => []
    | some (seg, s) => seg :: visits map unit resume n s

/-- A sweep comes to the upcoming members, one after the other, and to nothing else before them; if
it resumed within the map, it comes to nothing else at all. -/
theorem visits_eq_take (hmap : map.WellFormed) (hunit : 0 < unit) (hsize : unit ∣ map.size)
    {resume : ℕ} : ∀ (n : ℕ) {s : Sweep}, s.Bounded map resume →
      resume ≤ map.size ∨ n ≤ (s.upcoming map unit resume).length →
      s.visits map unit resume n = (s.upcoming map unit resume).take n := by
  intro n
  induction n with
  | zero => exact fun _ _ => rfl
  | succ n ih =>
    intro s hs hn
    have htaken := taken_next? hmap hunit hsize hs
    unfold visits
    generalize s.next? map unit resume = found at htaken ⊢
    cases htaken with
    | nothing upcoming => rw [upcoming, List.take_nil]
    | member bounded inside upcoming =>
      rw [upcoming, List.length_cons, Nat.succ_le_succ_iff] at hn
      rw [upcoming, List.take_succ_cons, ← ih bounded hn]
    | outside upcoming resumed =>
      rw [upcoming, List.length_nil] at hn
      omega

/-- A sweep comes to the members ahead of where it resumes, and then to those before it. -/
theorem visits_start (hmap : map.WellFormed) (hunit : 0 < unit) (hsize : unit ∣ map.size)
    {resume : ℕ} (n : ℕ) (hn : resume ≤ map.size ∨
      n ≤ (ahead map unit resume map.size ++ ahead map unit 0 resume).length) :
    visits map unit resume n ⟨resume, map.size, false⟩ =
      (ahead map unit resume map.size ++ ahead map unit 0 resume).take n :=
  visits_eq_take hmap hunit hsize n rfl hn

/-- A sweep comes to no more than the number asked for. -/
theorem length_visits_le (map : Bitmap) (unit resume : ℕ) :
    ∀ (n : ℕ) (s : Sweep), (s.visits map unit resume n).length ≤ n
  | 0, _ => le_rfl
  | n + 1, s => by
    unfold visits
    cases s.next? map unit resume with
    | none => exact Nat.zero_le _
    | some found => exact Nat.succ_le_succ (length_visits_le map unit resume n found.2)

end Reclaim.Sweep
