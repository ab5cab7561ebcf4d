import Reclaim.Proofs.Area.Frame
import Reclaim.Proofs.Area.Runs

/-!
# What a search can answer

A search that gives a result has gone one of four ways (`Area.Answered`): its list was empty, it
took over a staged section, or it scanned the list and found a victim or none. The cases hold of any
area, sound or not. They show that a search leaves its own limit alone, so an area that is reached
from a created one always has a limit above zero (`Area.Reachable.searchLimit_pos`).
-/

namespace Reclaim.Area

variable {a a' : Area} {trigger : Trigger} {log : Option Log} {reuse : Reuse} {p : Policy}
  {r : Outcome ℕ} {seg : ℕ}

/-- The area with the ages and the cursor that a scan has left. -/
def scanned (a : Area) (p : Policy) (f : Found) : Area :=
  { a with table := f.table, cursors := a.cursors.set p.ranking f.cursor }

/-- The scan of a search: from the offset of the policy, as far as its budget goes. -/
def fullScan (a : Area) (p : Policy) (trigger : Trigger) (bound : ℕ) : Guarded Found :=
  a.scan p trigger (p.budget - 1) ⟨p.offset, a.geometry.segments, false⟩ ⟨none, bound, a.table, 0⟩

/-- A search that takes over a staged section instead of scanning. -/
structure TakesOver (a : Area) (trigger : Trigger) (log : Option Log) (reuse : Reuse) : Prop where
  /-- Something is listed. -/
  listed : (a.policy trigger log reuse).budget ≠ 0
  /-- The victim is to be reclaimed whole. -/
  whole : reuse = .wholeSection
  /-- The search is for the foreground. -/
  foreground : trigger = .foreground
  /-- Some staged section is not busy. -/
  staged : a.stagedVictim? ≠ none

/-- The ways in which a search can answer. -/
inductive Answered (a : Area) (trigger : Trigger) (log : Option Log) (reuse : Reuse) :
    Outcome ℕ → Area → Prop
  /-- The list is empty. -/
  | idle (budget : (a.policy trigger log reuse).budget = 0) :
    Answered a trigger log reuse (.error .unavailable) a
  /-- The lowest staged section that is not busy is taken over. -/
  | takeover {sec : ℕ} {present : Bool} {dirty : DirtyLists}
    (takes : a.TakesOver trigger log reuse) (lowest : a.stagedVictim? = some sec)
    (unstaged : a.dirty.unstage sec = .ok (present, dirty)) :
    Answered a trigger log reuse (.ok (a.geometry.firstSegment sec))
      { a with dirty, claimed := some (a.geometry.sectionOf (a.geometry.firstSegment sec)) }
  /-- The scan finds no victim. -/
  | fruitless {bound : ℕ} {f : Found} (listed : (a.policy trigger log reuse).budget ≠ 0)
    (scans : ¬a.TakesOver trigger log reuse)
    (scan : a.fullScan (a.policy trigger log reuse) trigger bound = .ok f) (none : f.best = none) :
    Answered a trigger log reuse (.error .unavailable) (a.scanned (a.policy trigger log reuse) f)
  /-- The scan finds a victim, which is claimed. -/
  | found {bound : ℕ} {f : Found} {seg : ℕ} {r : Outcome ℕ} {a' : Area}
    (listed : (a.policy trigger log reuse).budget ≠ 0) (scans : ¬a.TakesOver trigger log reuse)
    (scan : a.fullScan (a.policy trigger log reuse) trigger bound = .ok f)
    (best : f.best = some seg)
    (claim : (a.scanned (a.policy trigger log reuse) f).claim (a.policy trigger log reuse) trigger
      seg = .ok (r, a')) : Answered a trigger log reuse r a'

section

variable (hcursor : ¬a.CursorOverflows trigger log reuse)
include hcursor

/-- A search with an empty list finds nothing. -/
theorem findVictim_eq_unavailable (hbudget : (a.policy trigger log reuse).budget = 0) :
    a.findVictim trigger log reuse = .ok (.error .unavailable, a) := by
  unfold findVictim
  rw [checkedPolicy_eq hcursor, Guarded.ok_bind, if_pos hbudget]
  rfl

/-- A search with something on its list that takes nothing over scans the list. -/
theorem findVictim_eq_searchVictim (hbudget : (a.policy trigger log reuse).budget ≠ 0)
    (h : ¬a.TakesOver trigger log reuse) :
    a.findVictim trigger log reuse = a.searchVictim (a.policy trigger log reuse) trigger := by
  unfold findVictim
  rw [checkedPolicy_eq hcursor, Guarded.ok_bind, if_neg hbudget]
  split
  · next sec hfind => exact absurd ⟨hbudget, rfl, rfl, by rw [hfind]; nofun⟩ h
  · rfl

/-- A search that takes over a staged section takes it off the staged ones and claims it. -/
theorem findVictim_eq_takeover {sec : ℕ} (h : a.TakesOver trigger log reuse)
    (hlowest : a.stagedVictim? = some sec) :
    a.findVictim trigger log reuse = do
      let (_, dirty) ← a.dirty.unstage sec
      return (.ok (a.geometry.firstSegment sec), { a with
        dirty, claimed := some (a.geometry.sectionOf (a.geometry.firstSegment sec)) }) := by
  obtain ⟨hbudget, rfl, rfl, -⟩ := h
  have haligned : a.geometry.firstSegment sec % a.geometry.segmentsPerSection = 0 :=
    Nat.mul_mod_left _ _
  unfold findVictim
  rw [checkedPolicy_eq hcursor, Guarded.ok_bind, if_neg hbudget, hlowest]
  dsimp only
  refine congrArg _ (funext fun x => ?_)
  unfold claim
  show Except.ok (Except.ok (a.geometry.firstSegment sec -
    a.geometry.firstSegment sec % a.geometry.segmentsPerSection), _) = _
  rw [haligned]
  rfl

end

/-- A search whose cursor cannot be rounded up traps, whatever there is on its list. -/
theorem findVictim_of_overflows (h : a.CursorOverflows trigger log reuse) :
    a.findVictim trigger log reuse = .error .width := by
  unfold findVictim
  rw [checkedPolicy_of_overflows h, Guarded.error_bind]

/-- The cursor of a search that gives a result can be rounded up. -/
theorem not_overflows_of_findVictim (h : a.findVictim trigger log reuse = .ok (r, a')) :
    ¬a.CursorOverflows trigger log reuse := by
  intro hwide
  rw [findVictim_of_overflows hwide] at h
  cases h

/-- A search that gives a result has gone one of the four ways. -/
theorem answered_of_findVictim (h : a.findVictim trigger log reuse = .ok (r, a')) :
    a.Answered trigger log reuse r a' := by
  have hcursor := not_overflows_of_findVictim h
  by_cases hbudget : (a.policy trigger log reuse).budget = 0
  · rw [findVictim_eq_unavailable hcursor hbudget] at h
    cases h
    exact .idle hbudget
  · by_cases htakes : a.TakesOver trigger log reuse
    · obtain ⟨sec, hlowest⟩ := Option.ne_none_iff_exists'.mp htakes.staged
      rw [findVictim_eq_takeover hcursor htakes hlowest] at h
      obtain ⟨⟨present, dirty⟩, hunstage, h⟩ := Guarded.bind_eq_ok.mp h
      cases h
      exact .takeover htakes hlowest hunstage
    · rw [findVictim_eq_searchVictim hcursor hbudget htakes] at h
      unfold searchVictim at h
      obtain ⟨bound, -, h⟩ := Guarded.bind_eq_ok.mp h
      obtain ⟨f, hscan, h⟩ := Guarded.bind_eq_ok.mp h
      dsimp only at h
      split at h
      · next hnone =>
        cases h
        exact .fruitless hbudget htakes hscan hnone
      · next seg hbest => exact .found hbudget htakes hscan hbest h

/-- The ways in which a victim can be claimed. -/
theorem claim_cases (h : a.claim p trigger seg = .ok (r, a')) :
    r = .ok (seg - seg % p.unit) ∧
      (p.reuse = .slots ∧ a' = a ∨
        p.reuse = .wholeSection ∧ trigger = .foreground ∧
          a' = { a with claimed := some (a.geometry.sectionOf seg) } ∨
        p.reuse = .wholeSection ∧ trigger = .background ∧
          ∃ present dirty, a.dirty.stage (a.geometry.sectionOf seg) = .ok (present, dirty) ∧
            a' = { a with dirty }) := by
  unfold claim at h
  dsimp only at h
  split at h
  · next hreuse =>
    cases h
    exact ⟨rfl, Or.inl ⟨hreuse, rfl⟩⟩
  · next hreuse =>
    cases h
    exact ⟨rfl, Or.inr (Or.inl ⟨hreuse, rfl, rfl⟩)⟩
  · next hreuse =>
    obtain ⟨⟨present, dirty⟩, hstage, h⟩ := Guarded.bind_eq_ok.mp h
    cases h
    exact ⟨rfl, Or.inr (Or.inr ⟨hreuse, rfl, present, dirty, hstage, rfl⟩)⟩

/-! ## The limit of a search -/

/-- A search leaves the geometry and its limit alone. -/
theorem settings_of_findVictim (h : a.findVictim trigger log reuse = .ok (r, a')) :
    a'.geometry = a.geometry ∧ a'.searchLimit = a.searchLimit := by
  cases answered_of_findVictim h with
  | idle => exact ⟨rfl, rfl⟩
  | takeover => exact ⟨rfl, rfl⟩
  | fruitless => exact ⟨rfl, rfl⟩
  | found _ _ _ _ claim =>
    obtain ⟨-, ⟨-, rfl⟩ | ⟨-, -, rfl⟩ | ⟨-, -, _, _, -, rfl⟩⟩ := claim_cases claim
    · exact ⟨rfl, rfl⟩
    · exact ⟨rfl, rfl⟩
    · exact ⟨rfl, rfl⟩

/-- A command leaves the limit of the victim search alone. -/
theorem Command.searchLimit_eq {command : Command} {written : Option Address}
    (h : command.run a = .ok (written, a')) : a'.searchLimit = a.searchLimit := by
  cases command with
  | allocate log now =>
    obtain ⟨⟨r, a₁⟩, hrun, h⟩ := Guarded.bind_eq_ok.mp h
    have hsame := (framed_of_allocate hrun).searchLimit
    cases r with
    | error status =>
      cases h
      exact hsame
    | ok addr =>
      cases h
      exact hsame
  | invalidate addr =>
    obtain ⟨⟨r, a₁⟩, hrun, h⟩ := Guarded.bind_eq_ok.mp h
    cases h
    exact (framed_of_invalidate hrun).searchLimit
  | checkpoint =>
    obtain ⟨⟨r, a₁⟩, hrun, h⟩ := Guarded.bind_eq_ok.mp h
    cases h
    exact (framed_of_checkpoint hrun).searchLimit
  | search trigger log reuse =>
    obtain ⟨⟨r, a₁⟩, hrun, h⟩ := Guarded.bind_eq_ok.mp h
    cases h
    exact (settings_of_findVictim hrun).2
  | claim sec =>
    cases h
    rfl
  | setCursor ranking seg =>
    cases h
    rfl
  | setLog seg log =>
    obtain ⟨a₁, hrun, h⟩ := Guarded.bind_eq_ok.mp h
    cases h
    exact (framed_of_setLog hrun).searchLimit
  | setMtime seg mtime =>
    obtain ⟨a₁, hrun, h⟩ := Guarded.bind_eq_ok.mp h
    cases h
    exact (framed_of_setMtime hrun).searchLimit
  | setAgeBounds oldest newest =>
    cases h
    rfl

/-- A run leaves the limit of the victim search alone. -/
theorem Run.searchLimit_eq {events : List Event} (h : Run a events a') :
    a'.searchLimit = a.searchLimit := by
  induction h with
  | nil => rfl
  | cons command written admissible ran rest ih => exact ih.trans (Command.searchLimit_eq ran)

/-- A search may always look at one candidate. -/
theorem Reachable.searchLimit_pos (h : a.Reachable) : 0 < a.searchLimit := by
  obtain ⟨l, a₀, events, hcreate, hrun⟩ := h
  rw [hrun.searchLimit_eq]
  unfold create at hcreate
  split at hcreate
  · cases hcreate
  · rw [(framed_of_openLogs hcreate).searchLimit]
    exact Nat.le_max_right _ _

end Reclaim.Area
