import Mathlib.Data.List.MinMax
import Reclaim.Proofs.Victim.Answer
import Reclaim.Proofs.Victim.Cost
import Reclaim.Proofs.Victim.Sweep

/-!
# A search against its reference

The reference search says what a victim search computes without its loop, its wrap-around and its
running minimum. It takes the first candidates in cyclic order, as many as the budget allows, leaves
out those whose sections are passed over, prices the rest in that order, and takes the earliest of
the cheapest (`Area.referenceSearch`).

The scan is a fold of `Area.weigh` over the segments that its sweep comes to (`Area.scan_eq`), the
fold prices the segments that are not passed over and settles for the cheapest
(`Area.weighAll_eq`), and the sweep comes to the first candidates (`Area.Sound.examined_eq`).
-/

namespace Reclaim

/-! ## The reference -/

/-- Prices a list of segments one after the other, each on the age bounds that the ones before it
have widened. -/
def SegmentTable.price (t : SegmentTable) (g : Geometry) (p : Policy) :
    List ℕ → Guarded (List (ℕ × ℕ) × SegmentTable)
  | [] => return ([], t)
  | seg :: segs => do
    let (cost, t) ← t.cost g seg p
    let (priced, t) ← t.price g p segs
    return ((seg, cost) :: priced, t)

/-- The earliest of the segments of least price, if its price is below a bound. -/
def cheapest (bound : ℕ) (priced : List (ℕ × ℕ)) : Option (ℕ × ℕ) :=
  (priced.argmin Prod.snd).filter fun x => x.2 < bound

/-- The cursor after a scan: behind the last segment examined if the budget is used up, and at the
start of the area if the scan ran out of candidates before. -/
def cursorAfter (segments budget : ℕ) (examined : List ℕ) : ℕ :=
  if examined.length = budget then (examined.getLastD 0 + 1) % segments else 0

namespace Area

/-- The segments that a scan examines, in order. -/
def examined (a : Area) (p : Policy) : List ℕ :=
  Sweep.visits (a.dirty.roster p.scanned).map p.unit p.offset p.budget
    ⟨p.offset, a.geometry.segments, false⟩

/-- The segments of a list whose sections a search does not pass over. -/
def eligible (a : Area) (trigger : Trigger) (segs : List ℕ) : List ℕ :=
  segs.filter fun seg => !a.isPassedOver trigger (a.geometry.sectionOf seg)

/-- The saved cursor of a policy, rounded up to the start of a unit and going round the area. -/
def resumption (a : Area) (p : Policy) : ℕ :=
  (a.cursors.get p.ranking + p.unit - 1) / p.unit * p.unit % a.geometry.segments

/-- The number of candidates that a search may look at: no more than there are listed segments, and
no more than its limit. -/
def allowance (a : Area) (p : Policy) : ℕ :=
  min (a.dirty.roster p.scanned).map.toFinset.card a.searchLimit

/-- The first candidates in cyclic order from the resumption, as many as a search may look at. -/
def firstCandidates (a : Area) (p : Policy) : List ℕ :=
  (Sweep.candidates (a.dirty.roster p.scanned).map p.unit (a.resumption p)).take (a.allowance p)

/-- Prices the segments of a list that are not passed over, moves the cursor behind the list, and
claims the earliest of the cheapest; the answer is the start of its unit. -/
def selectFrom (a : Area) (p : Policy) (trigger : Trigger) (budget : ℕ) (segs : List ℕ) :
    Guarded (Outcome ℕ × Area) := do
  let bound ← p.maxCost a.geometry
  let (priced, table) ← a.table.price a.geometry p (a.eligible trigger segs)
  let cursor := cursorAfter a.geometry.segments budget segs
  let a := { a with table, cursors := a.cursors.set p.ranking cursor }
  match cheapest bound priced with
  | none => return (.error .unavailable, a)
  | some (seg, _) => do
    let (_, a) ← a.claim p trigger seg
    return (.ok (seg - seg % p.unit), a)

/-- The search without its loop: the cheapest of the first candidates that are not passed over. -/
def referenceSearch (a : Area) (trigger : Trigger) (log : Option Log) (reuse : Reuse) :
    Guarded (Outcome ℕ × Area) :=
  let p := a.policy trigger log reuse
  if (a.dirty.roster p.scanned).map.toFinset = ∅ then
    return (.error .unavailable, a)
  else
    a.selectFrom p trigger (a.allowance p) (a.firstCandidates p)

end Area

/-! ## The cheapest of a list -/

section Cheapest

variable {seg c bound : ℕ} {priced : List (ℕ × ℕ)}

/-- A first segment below the bound is the cheapest unless a later one is cheaper. -/
theorem cheapest_cons_of_lt (h : c < bound) :
    cheapest bound ((seg, c) :: priced) = some ((cheapest c priced).getD (seg, c)) := by
  unfold cheapest
  rw [List.argmin_cons]
  cases priced.argmin Prod.snd with
  | none => exact if_pos (decide_eq_true h)
  | some x =>
    by_cases hx : x.2 < c
    · have hbound : x.2 < bound := hx.trans h
      simp [Option.filter, hx, hbound]
    · simp [Option.filter, hx, h]

/-- A first segment at or above the bound is not the cheapest. -/
theorem cheapest_cons_of_le (h : bound ≤ c) :
    cheapest bound ((seg, c) :: priced) = cheapest bound priced := by
  have hc : ¬c < bound := by omega
  unfold cheapest
  rw [List.argmin_cons]
  cases priced.argmin Prod.snd with
  | none => exact if_neg (by simpa using h)
  | some x =>
    by_cases hx : x.2 < c
    · simp [hx]
    · have hbound : ¬x.2 < bound := by omega
      simp [Option.filter, hx, hc, hbound]

/-- The cheapest segment is one of the list, it is below the bound, no segment is cheaper, and any
that is as cheap stands behind it. -/
theorem cheapest_eq_some {x : ℕ × ℕ} (h : cheapest bound priced = some x) :
    x ∈ priced ∧ x.2 < bound ∧ (∀ y ∈ priced, x.2 ≤ y.2) := by
  unfold cheapest at h
  rw [Option.filter_eq_some_iff, decide_eq_true_iff] at h
  obtain ⟨hmin, hbound⟩ := h
  exact ⟨List.argmin_mem hmin, hbound, fun y hy => List.le_of_mem_argmin hy hmin⟩

/-- There is no cheapest segment when none is below the bound. -/
theorem cheapest_eq_none_iff : cheapest bound priced = none ↔ ∀ x ∈ priced, bound ≤ x.2 := by
  unfold cheapest
  constructor
  · intro h x hx
    cases hmin : priced.argmin Prod.snd with
    | none => exact absurd hx (by rw [List.argmin_eq_none.mp hmin]; exact List.not_mem_nil)
    | some y =>
      rw [hmin] at h
      have hy : bound ≤ y.2 := by simpa using h
      exact hy.trans (List.le_of_mem_argmin hx hmin)
  · intro h
    cases hmin : priced.argmin Prod.snd with
    | none => rfl
    | some y => simpa using h y (List.argmin_mem hmin)

end Cheapest

namespace Area

variable {a : Area} {p : Policy} {trigger : Trigger} {seg : ℕ}

/-! ## The scan as a fold -/

/-- The cursor behind the rest of a list is the cursor behind the list. -/
theorem cursorAfter_cons (segments budget : ℕ) (segs : List ℕ) :
    cursorAfter segments (budget + 2) (seg :: segs) = cursorAfter segments (budget + 1) segs := by
  unfold cursorAfter
  cases segs with
  | nil => simp
  | cons s segs => simp

/-- A cursor after a scan is a segment of the area. -/
theorem cursorAfter_lt {segments : ℕ} (h : 0 < segments) (budget : ℕ) (segs : List ℕ) :
    cursorAfter segments budget segs < segments := by
  unfold cursorAfter
  split_ifs
  · exact Nat.mod_lt _ h
  · exact h

/-- Weighs a list of segments one after the other. -/
def weighAll (a : Area) (p : Policy) (trigger : Trigger) (segs : List ℕ) (f : Found) :
    Guarded Found :=
  segs.foldlM (fun f seg => a.weigh p trigger seg f) f

/-- A scan weighs the segments that its sweep comes to one after the other. -/
theorem scan_eq (a : Area) (p : Policy) (trigger : Trigger) :
    ∀ (left : ℕ) (s : Sweep) (f : Found) {segs : List ℕ},
      s.visits (a.dirty.roster p.scanned).map p.unit p.offset (left + 1) = segs →
      a.scan p trigger left s f = (a.weighAll p trigger segs f).map fun f =>
        { f with cursor := cursorAfter a.geometry.segments (left + 1) segs } := by
  intro left
  induction left with
  | zero =>
    rintro s f _ rfl
    unfold scan Sweep.visits
    cases s.next? (a.dirty.roster p.scanned).map p.unit p.offset with
    | none => rfl
    | some found =>
      unfold weighAll
      dsimp only
      rw [List.foldlM_cons]
      cases a.weigh p trigger found.1 f with
      | error t => rfl
      | ok f' => rfl
  | succ left ih =>
    rintro s f _ rfl
    unfold scan Sweep.visits
    cases s.next? (a.dirty.roster p.scanned).map p.unit p.offset with
    | none => rfl
    | some found =>
      unfold weighAll
      dsimp only
      rw [List.foldlM_cons, cursorAfter_cons]
      cases a.weigh p trigger found.1 f with
      | error t => rfl
      | ok f' => exact ih found.2 f' rfl

/-- What a scan has found when it has settled for the cheapest of some priced segments. -/
def settle (f : Found) (priced : List (ℕ × ℕ)) (table : SegmentTable) : Found :=
  { f with
    table
    best := ((cheapest f.cost priced).map fun x => some x.1).getD f.best
    cost := ((cheapest f.cost priced).map Prod.snd).getD f.cost }

/-- A priced segment that is cheaper than what was found takes its place. -/
theorem settle_cons_of_lt {f : Found} {c : ℕ} (h : c < f.cost) (priced : List (ℕ × ℕ))
    (t table : SegmentTable) :
    settle f ((seg, c) :: priced) table =
      settle { f with best := some seg, cost := c, table := t } priced table := by
  unfold settle
  rw [cheapest_cons_of_lt h]
  dsimp only
  cases cheapest c priced with
  | none => rfl
  | some x => rfl

/-- A priced segment that is no cheaper than what was found changes nothing. -/
theorem settle_cons_of_le {f : Found} {c : ℕ} (h : f.cost ≤ c) (priced : List (ℕ × ℕ))
    (t table : SegmentTable) :
    settle f ((seg, c) :: priced) table = settle { f with table := t } priced table := by
  unfold settle
  rw [cheapest_cons_of_le h]

/-- Weighing a list of segments prices those that are not passed over, and settles for the
cheapest. -/
theorem weighAll_eq (a : Area) (p : Policy) (trigger : Trigger) : ∀ (segs : List ℕ) (f : Found),
    a.weighAll p trigger segs f =
      (f.table.price a.geometry p (a.eligible trigger segs)).map fun x => settle f x.1 x.2 := by
  intro segs
  induction segs with
  | nil => exact fun f => rfl
  | cons seg segs ih =>
    intro f
    have hcons : a.weighAll p trigger (seg :: segs) f =
        a.weigh p trigger seg f >>= fun f => a.weighAll p trigger segs f := List.foldlM_cons
    rw [hcons]
    unfold weigh eligible
    by_cases hpassed : a.isPassedOver trigger (a.geometry.sectionOf seg) = true
    · -- The segment is passed over: nothing is weighed, and nothing priced.
      rw [if_pos hpassed, List.filter_cons_of_neg (by simpa using hpassed)]
      exact ih f
    · rw [if_neg hpassed, List.filter_cons_of_pos (by simpa using hpassed)]
      unfold SegmentTable.price
      cases f.table.cost a.geometry seg p with
      | error t => rfl
      | ok costed =>
        obtain ⟨c, table⟩ := costed
        simp only [Guarded.ok_bind]
        by_cases hlt : c < f.cost
        · have hrest := ih { f with best := some seg, cost := c, table }
          unfold eligible at hrest
          rw [if_pos hlt, Guarded.pure_eq_ok, Guarded.ok_bind, hrest]
          cases table.price a.geometry p (segs.filter _) with
          | error t => rfl
          | ok x => exact congrArg Except.ok (settle_cons_of_lt hlt x.1 table x.2).symm
        · have hrest := ih { f with table }
          unfold eligible at hrest
          rw [if_neg hlt, Guarded.pure_eq_ok, Guarded.ok_bind, hrest]
          cases table.price a.geometry p (segs.filter _) with
          | error t => rfl
          | ok x =>
            exact congrArg Except.ok (settle_cons_of_le (Nat.le_of_not_lt hlt) x.1 table x.2).symm

/-- A scan prices the segments that it examines and does not pass over, and settles for the
cheapest. -/
theorem fullScan_eq (hbudget : p.budget ≠ 0) (bound : ℕ) :
    a.fullScan p trigger bound =
      (a.weighAll p trigger (a.examined p) ⟨none, bound, a.table, 0⟩).map fun f =>
        { f with cursor := cursorAfter a.geometry.segments p.budget (a.examined p) } := by
  have hsucc : p.budget - 1 + 1 = p.budget := Nat.succ_pred hbudget
  have h := scan_eq a p trigger (p.budget - 1) ⟨p.offset, a.geometry.segments, false⟩
    ⟨none, bound, a.table, 0⟩ rfl
  rw [hsucc] at h
  exact h

/-- Claiming a segment answers with the start of its unit. -/
theorem claim_answer (a : Area) (p : Policy) (trigger : Trigger) (seg : ℕ) :
    a.claim p trigger seg = do
      let (_, a) ← a.claim p trigger seg
      return (.ok (seg - seg % p.unit), a) := by
  cases hclaim : a.claim p trigger seg with
  | error t => rfl
  | ok x =>
    obtain ⟨r, a'⟩ := x
    obtain ⟨rfl, -⟩ := claim_cases hclaim
    rfl

/-- A search of a list that is not empty selects from the segments that it examines. -/
theorem searchVictim_eq (hbudget : p.budget ≠ 0) :
    a.searchVictim p trigger = a.selectFrom p trigger p.budget (a.examined p) := by
  unfold selectFrom
  unfold searchVictim
  cases p.maxCost a.geometry with
  | error t => rfl
  | ok bound =>
    have hscan : a.fullScan p trigger bound = _ := fullScan_eq hbudget bound
    unfold fullScan at hscan
    rw [Guarded.ok_bind, Guarded.ok_bind, hscan, weighAll_eq]
    cases a.table.price a.geometry p (a.eligible trigger (a.examined p)) with
    | error t => rfl
    | ok x =>
      simp only [Except.map, Guarded.ok_bind]
      unfold settle
      dsimp only
      cases cheapest bound x.1 with
      | none => rfl
      | some y => exact claim_answer _ p trigger y.1

/-! ## What is examined -/

section Examined

variable {log : Option Log} {reuse : Reuse}

/-- The lists of a sound area have a number for each segment. -/
theorem Sound.size_roster (ha : a.Sound) (c : DirtyClass) :
    (a.dirty.roster c).map.size = a.geometry.segments :=
  (ha.dirty.roster c).size

/-- A unit is a segment or a section, and the area is made of whole ones. -/
theorem Sound.unit_spec (ha : a.Sound) (trigger : Trigger) (log : Option Log) (reuse : Reuse) :
    0 < (a.policy trigger log reuse).unit ∧
      (a.policy trigger log reuse).unit ∣ a.geometry.segments := by
  cases reuse with
  | wholeSection =>
    exact ⟨ha.geometry.perSection_pos, Nat.dvd_of_mod_eq_zero ha.geometry.whole⟩
  | slots => exact ⟨Nat.one_pos, Nat.one_dvd _⟩

/-- The cursor of a search can be rounded up if it lies in the area. -/
theorem Sound.not_cursorOverflows (ha : a.Sound) {trigger : Trigger} {log : Option Log}
    {reuse : Reuse}
    (hcursor : a.cursors.get (a.policy trigger log reuse).ranking < a.geometry.segments) :
    ¬a.CursorOverflows trigger log reuse :=
  Area.not_cursorOverflows (Geometry.segments_lt ha.geometry) (ha.unit_spec trigger log reuse).2
    hcursor

/-- The budget is what the search may look at. -/
theorem Sound.budget_eq (ha : a.Sound) (trigger : Trigger) (log : Option Log) (reuse : Reuse) :
    (a.policy trigger log reuse).budget = a.allowance (a.policy trigger log reuse) := by
  have hcount := (ha.dirty.roster (a.policy trigger log reuse).scanned).count_eq
  unfold allowance
  rw [← hcount]
  rfl

/-- A cursor in the area is rounded up to the start of a unit. -/
theorem roundCursor_eq {unit segments cursor : ℕ} (hunit : 0 < unit) (hcursor : cursor < segments) :
    roundCursor unit segments cursor = (cursor + unit - 1) / unit * unit % segments := by
  have hdiv := Nat.div_add_mod cursor unit
  have hmod := Nat.mod_lt cursor hunit
  unfold roundCursor
  split_ifs with haligned
  · -- The cursor is at the start of a unit already.
    have hup : (cursor + unit - 1) / unit = cursor / unit := by
      rw [Nat.div_eq_iff hunit, Nat.mul_comm]
      omega
    rw [hup, Nat.mul_comm, ← Nat.add_zero (unit * _), ← haligned, hdiv, Nat.mod_eq_of_lt hcursor]
  · have hup : (cursor + unit - 1) / unit = cursor / unit + 1 := by
      rw [Nat.div_eq_iff hunit, Nat.add_mul, Nat.one_mul, Nat.mul_comm]
      omega
    rw [hup, roundUp_eq]

/-- A search resumes at the start of a unit, unless its cursor is past the end of the area. -/
theorem Sound.offset_spec (ha : a.Sound) {trigger : Trigger} {log : Option Log} {reuse : Reuse}
    (hcursor : a.cursors.get (a.policy trigger log reuse).ranking < a.geometry.segments) :
    (a.policy trigger log reuse).offset = a.resumption (a.policy trigger log reuse) ∧
      (a.policy trigger log reuse).unit ∣ (a.policy trigger log reuse).offset ∧
      (a.policy trigger log reuse).offset < a.geometry.segments := by
  obtain ⟨hunit, hdvd⟩ := ha.unit_spec trigger log reuse
  have hoffset : (a.policy trigger log reuse).offset =
      a.resumption (a.policy trigger log reuse) :=
    roundCursor_eq hunit hcursor
  rw [hoffset]
  exact ⟨rfl, (Nat.dvd_mod_iff hdvd).mpr (Nat.dvd_mul_left _ _),
    Nat.mod_lt _ ha.geometry.segments_pos⟩

/-- A search with its cursor in the area examines the first candidates in cyclic order. -/
theorem Sound.examined_eq (ha : a.Sound) {trigger : Trigger} {log : Option Log} {reuse : Reuse}
    (hcursor : a.cursors.get (a.policy trigger log reuse).ranking < a.geometry.segments) :
    a.examined (a.policy trigger log reuse) =
      a.firstCandidates (a.policy trigger log reuse) := by
  obtain ⟨hunit, hdvd⟩ := ha.unit_spec trigger log reuse
  obtain ⟨hoffset, haligned, hlt⟩ := ha.offset_spec hcursor
  have hbudget := ha.budget_eq trigger log reuse
  generalize a.policy trigger log reuse = p at *
  have hsize := ha.size_roster p.scanned
  unfold examined firstCandidates
  rw [← hsize] at hdvd hlt ⊢
  rw [Sweep.visits_start (ha.dirty.roster p.scanned).map hunit hdvd _ (Or.inl hlt.le),
    ← hoffset, Sweep.candidates_eq hunit haligned hlt.le, hbudget]

/-- The segments that were priced are those of the list, in order. -/
theorem map_fst_of_price {g : Geometry} {p : Policy} : ∀ {segs : List ℕ} {t t' : SegmentTable}
    {priced : List (ℕ × ℕ)}, t.price g p segs = .ok (priced, t') → priced.map Prod.fst = segs
  | [], _, _, _, h => by
    cases h
    rfl
  | seg :: segs, _, _, _, h => by
    unfold SegmentTable.price at h
    obtain ⟨⟨c, t₁⟩, -, h⟩ := Guarded.bind_eq_ok.mp h
    obtain ⟨⟨priced, t₂⟩, hprice, h⟩ := Guarded.bind_eq_ok.mp h
    cases h
    rw [List.map_cons, map_fst_of_price hprice]

/-- The segments of a list can be priced if their ages fit wherever ages are compared. -/
theorem exists_price {g : Geometry} (hg : g.Valid) (p : Policy) :
    ∀ (segs : List ℕ) {t : SegmentTable}, t.Capped g → (∀ seg ∈ segs, seg < g.segments) →
      (∀ seg ∈ segs, p.reuse = .wholeSection → p.ranking = .costBenefit →
        t.AgesFit g (g.sectionOf seg)) → ∃ priced t', t.price g p segs = .ok (priced, t') := by
  intro segs
  induction segs with
  | nil => exact fun {t} _ _ _ => ⟨[], t, rfl⟩
  | cons seg segs ih =>
    intro t ht hsegs hfit
    obtain ⟨c, t₁, hcost⟩ := SegmentTable.exists_cost hg ht (hsegs seg List.mem_cons_self) p
      (hfit seg List.mem_cons_self)
    -- Costing changes the age bounds alone, so the rest can be priced as before.
    obtain ⟨-, hrecords, -⟩ := SegmentTable.cost_spec hg hcost
    obtain ⟨priced, t', hprice⟩ := ih (ht.of_records hrecords)
      (fun s hs => hsegs s (List.mem_cons_of_mem _ hs))
      (fun s hs hwhole hage => (hfit s (List.mem_cons_of_mem _ hs) hwhole hage).of_records hrecords)
    refine ⟨(seg, c) :: priced, t', ?_⟩
    unfold SegmentTable.price
    rw [hcost, Guarded.ok_bind]
    dsimp only
    rw [hprice]
    rfl

/-- The cheapest of the segments that a search selects from can be claimed once they have been
priced. -/
theorem Sound.exists_selectFrom_of_price (ha : a.Sound) {budget : ℕ} {segs : List ℕ}
    (hunit : p.reuse = .wholeSection → p.unit = a.geometry.segmentsPerSection)
    (hsegs : ∀ seg ∈ a.eligible trigger segs, seg < a.geometry.segments)
    {priced : List (ℕ × ℕ)} {table : SegmentTable}
    (hprice : a.table.price a.geometry p (a.eligible trigger segs) = .ok (priced, table)) :
    ∃ r a', a.selectFrom p trigger budget segs = .ok (r, a') := by
  obtain ⟨bound, hbound⟩ := ha.maxCost_eq hunit
  unfold selectFrom
  rw [hbound, Guarded.ok_bind, hprice, Guarded.ok_bind]
  dsimp only
  cases hcheapest : cheapest bound priced with
  | none => exact ⟨_, _, rfl⟩
  | some x =>
    -- The cheapest segment is one of the area, so its section can be staged.
    have hmem : x.1 ∈ a.eligible trigger segs := by
      rw [← map_fst_of_price hprice]
      exact List.mem_map_of_mem (cheapest_eq_some hcheapest).1
    have hsec := Geometry.sectionOf_lt ha.geometry (hsegs x.1 hmem)
    obtain ⟨dirty, hstage, -⟩ := DirtyLists.stage_spec ha.dirty hsec
    dsimp only
    unfold claim
    dsimp only
    split
    · exact ⟨_, _, rfl⟩
    · exact ⟨_, _, rfl⟩
    · rw [hstage]
      exact ⟨_, _, rfl⟩

/-- The segments that a search selects from can be claimed if they can be priced. -/
theorem Sound.exists_selectFrom (ha : a.Sound) {budget : ℕ} {segs : List ℕ}
    (hunit : p.reuse = .wholeSection → p.unit = a.geometry.segmentsPerSection)
    (hsegs : ∀ seg ∈ a.eligible trigger segs, seg < a.geometry.segments)
    (hfit : ∀ seg ∈ a.eligible trigger segs, p.reuse = .wholeSection → p.ranking = .costBenefit →
      a.table.AgesFit a.geometry (a.geometry.sectionOf seg)) :
    ∃ r a', a.selectFrom p trigger budget segs = .ok (r, a') := by
  obtain ⟨priced, table, hprice⟩ := exists_price ha.geometry p (a.eligible trigger segs)
    ha.table.capped hsegs hfit
  exact ha.exists_selectFrom_of_price hunit hsegs hprice

/-- A search that resumes in the area and takes nothing over gives an answer if the ages of the
sections that it compares by age fit. -/
theorem Sound.exists_findVictim (ha : a.Sound) {trigger : Trigger} {log : Option Log}
    {reuse : Reuse}
    (hcursor : a.cursors.get (a.policy trigger log reuse).ranking < a.geometry.segments)
    (hscan : ¬a.TakesOver trigger log reuse)
    (hfit : reuse = .wholeSection → trigger = .background →
      ∀ seg ∈ a.eligible trigger (a.examined (a.policy trigger log reuse)),
        a.table.AgesFit a.geometry (a.geometry.sectionOf seg)) :
    ∃ r a', a.findVictim trigger log reuse = .ok (r, a') := by
  obtain ⟨hunit, -⟩ := ha.unit_spec trigger log reuse
  have hrounded := ha.not_cursorOverflows hcursor
  by_cases hbudget : (a.policy trigger log reuse).budget = 0
  · exact ⟨_, a, findVictim_eq_unavailable hrounded hbudget⟩
  rw [findVictim_eq_searchVictim hrounded hbudget hscan, searchVictim_eq hbudget]
  refine ha.exists_selectFrom ?_ ?_ ?_
  · rintro rfl
    rfl
  · intro seg hseg
    have hseg := List.mem_of_mem_filter hseg
    rw [ha.examined_eq hcursor] at hseg
    have hlt := Bitmap.lt_size_of_contains (Sweep.of_mem_firsts hunit (List.mem_of_mem_take hseg))
    rwa [ha.size_roster] at hlt
  · intro seg hseg hwhole hage
    cases trigger with
    | background => exact hfit hwhole rfl seg hseg
    | foreground =>
      -- A foreground search compares no ages.
      obtain rfl : reuse = .wholeSection := hwhole
      cases hage

end Examined

/-! ## The search -/

/-- In an area that a run from a created one reaches, a search that resumes in the area and takes
nothing over is the reference search, for every trigger, log and kind of reuse. It examines
the first candidates in cyclic order from the rounded cursor, each once, as many as there are up to
the number of listed segments and its limit: its scan weighs these and no others, in order. It gives
an answer whenever the ages of the sections that it compares by age fit. -/
theorem findVictim_eq_referenceSearch (ha : a.Reachable) (trigger : Trigger) (log : Option Log)
    (reuse : Reuse)
    (hcursor : a.cursors.get (a.policy trigger log reuse).ranking < a.geometry.segments)
    (hscan : ¬a.TakesOver trigger log reuse) :
    let p := a.policy trigger log reuse
    let map := (a.dirty.roster p.scanned).map
    let C := Sweep.candidates map p.unit (a.resumption p)
    (a.examined p = C.take (min map.toFinset.card a.searchLimit) ∧
      (a.examined p).length = min C.length (min map.toFinset.card a.searchLimit) ∧
      (a.examined p).Nodup ∧
      ∀ bound, p.budget ≠ 0 → a.fullScan p trigger bound =
        (a.weighAll p trigger (a.examined p) ⟨none, bound, a.table, 0⟩).map fun f =>
          { f with cursor := cursorAfter a.geometry.segments p.budget (a.examined p) }) ∧
    a.findVictim trigger log reuse = a.referenceSearch trigger log reuse ∧
    ((reuse = .wholeSection → trigger = .background →
        ∀ seg ∈ a.eligible trigger (a.examined p),
          a.table.AgesFit a.geometry (a.geometry.sectionOf seg)) →
      ∃ r a', a.findVictim trigger log reuse = .ok (r, a')) := by
  intro p map C
  have hsound := ha.sound
  have hlimit := ha.searchLimit_pos
  have hrounded := hsound.not_cursorOverflows hcursor
  obtain ⟨hunit, hdvd⟩ := hsound.unit_spec trigger log reuse
  have hbudget : p.budget = a.allowance p := hsound.budget_eq trigger log reuse
  have hexamined : a.examined p = a.firstCandidates p :=
    hsound.examined_eq hcursor
  have hnodup : C.Nodup := Sweep.nodup_candidates hunit map _
  have hempty : (a.dirty.roster p.scanned).map.toFinset = ∅ ↔ p.budget = 0 := by
    rw [hbudget, ← Finset.card_eq_zero]
    unfold allowance
    omega
  have hreference : a.findVictim trigger log reuse = a.referenceSearch trigger log reuse := by
    unfold referenceSearch
    dsimp only
    by_cases hzero : p.budget = 0
    · rw [if_pos (hempty.mpr hzero), findVictim_eq_unavailable hrounded hzero]
      rfl
    · rw [if_neg (mt hempty.mp hzero), findVictim_eq_searchVictim hrounded hzero hscan,
        searchVictim_eq hzero]
      show a.selectFrom p trigger p.budget (a.examined p) = _
      rw [hexamined, hbudget]
  refine ⟨⟨hexamined, ?_, ?_, fun bound hzero => fullScan_eq hzero bound⟩, hreference,
    hsound.exists_findVictim hcursor hscan⟩
  · rw [hexamined, firstCandidates, List.length_take, Nat.min_comm]
    rfl
  · rw [hexamined]
    exact hnodup.sublist (List.take_sublist _ _)

/-- The background search of an area with two dirty segments and its cursor between them. -/
theorem findVictim_eq_referenceSearch_between : ∃ a : Area, a.Reachable ∧
    a.examined (a.policy .background none .wholeSection) = [6, 0] ∧
    a.findVictim .background none .wholeSection = a.referenceSearch .background none .wholeSection ∧
    ∃ r a', a.findVictim .background none .wholeSection = .ok (r, a') := by
  obtain ⟨a₀, events, a, hcreate, hrun, h⟩ := Run.of_reaches { tinyLayout with segments := 12 }
    [.allocate (some Log.hotData) 5, .allocate (some Log.hotData) 6, .allocate (some Log.hotData) 7,
      .allocate (some Log.hotData) 8, .invalidate 64, .invalidate 77, .setCursor .costBenefit 3]
    (fun _ a => a.cursors.costBenefit < a.geometry.segments &&
      a.examined (a.policy .background none .wholeSection) = [6, 0] &&
      ([6, 0].all fun seg =>
        a.table.ageTotal a.geometry (a.geometry.sectionOf seg) < 2 ^ 64 &&
        100 * a.table.meanAge a.geometry (a.geometry.sectionOf seg) < 2 ^ 64))
    (by decide +kernel)
  simp only [Bool.and_eq_true, decide_eq_true_eq, List.all_eq_true] at h
  obtain ⟨⟨hcursor, hexamined⟩, hfit⟩ := h
  have hreachable : a.Reachable := ⟨_, a₀, events, hcreate, hrun⟩
  obtain ⟨-, heq, hanswer⟩ := findVictim_eq_referenceSearch hreachable .background none
    .wholeSection hcursor (fun h => by cases h.foreground)
  refine ⟨a, hreachable, hexamined, heq, hanswer fun _ _ seg hseg => ?_⟩
  have hmem := List.mem_of_mem_filter hseg
  rw [hexamined] at hmem
  exact ⟨(hfit seg hmem).1, (hfit seg hmem).2⟩

end Area

end Reclaim
