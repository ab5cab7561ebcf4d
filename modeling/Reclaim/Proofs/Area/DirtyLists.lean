import Reclaim.Area.DirtyLists
import Reclaim.Proofs.Bitmap
import Reclaim.Proofs.Guarded

/-!
# Entering and striking segments

The lists are read through `DirtyLists.contains`, which says whether a segment is on the list of a
class. A roster that is well formed counts its members, so adding and removing never trap.
`enter_spec` and `strike_spec` say what an entry and a removal change: the list of the class named,
and for a dirty segment the list of its log as well (`DirtyClass.Concerns`). A removal may also
take back the staging of a section.
-/

namespace Reclaim

/-! ## One value for each log -/

/-- Every log is one of the six. -/
theorem Log.mem_all (l : Log) : l ∈ Log.all := by
  obtain ⟨heat, kind⟩ := l
  cases heat <;> cases kind <;> decide

namespace PerLog

variable {α : Type}

/-- Replacing the value of a log changes that value alone. -/
theorem get_set (p : PerLog α) (l k : Log) (x : α) :
    (p.set l x).get k = if k = l then x else p.get k := by
  obtain ⟨heat, kind⟩ := l
  obtain ⟨heat', kind'⟩ := k
  cases heat <;> cases kind <;> cases heat' <;> cases kind' <;> rfl

/-- The same value for every log. -/
@[simp]
theorem get_const (x : α) (l : Log) : (const x).get l = x := by
  obtain ⟨heat, kind⟩ := l
  cases heat <;> cases kind <;> rfl

/-- The list of values has the value of each log. -/
theorem mem_toList {p : PerLog α} {x : α} : x ∈ p.toList ↔ ∃ l, p.get l = x := by
  unfold toList
  rw [List.mem_map]
  exact ⟨fun ⟨l, _, h⟩ => ⟨l, h⟩, fun ⟨l, h⟩ => ⟨l, Log.mem_all l, h⟩⟩

/-- What is given for each log is the same if it is the same for every log. -/
theorem eq_of_get {p p' : PerLog α} (h : ∀ log, p'.get log = p.get log) :
    p' = p := by
  have h₁ := h Log.hotData
  have h₂ := h Log.warmData
  have h₃ := h Log.coldData
  have h₄ := h Log.hotNode
  have h₅ := h Log.warmNode
  have h₆ := h Log.coldNode
  cases p
  cases p'
  simp only [PerLog.mk.injEq]
  exact ⟨h₁, h₂, h₃, h₄, h₅, h₆⟩

end PerLog

/-! ## Rosters -/

namespace Roster

/-- A roster over the segments of an area that counts its members. -/
structure WellFormed (r : Roster) (segments : ℕ) : Prop where
  /-- The map is well formed. -/
  map : r.map.WellFormed
  /-- The map has a number for each segment. -/
  size : r.map.size = segments
  /-- The count is the number of members. -/
  count_eq : r.count = r.map.toFinset.card

variable {r : Roster} {segments seg : ℕ}

/-- The empty roster has no member. -/
theorem wellFormed_empty (segments : ℕ) : (empty segments).WellFormed segments where
  map := Bitmap.wellFormed_empty segments
  size := rfl
  count_eq := by
    have hset : (empty segments).map.toFinset = ∅ := by
      ext i
      simp [empty]
    rw [hset]
    rfl

/-- Adding a segment of the area. -/
theorem add_spec (hr : r.WellFormed segments) (hseg : seg < segments) :
    ∃ r', r.add seg = .ok r' ∧ r'.WellFormed segments ∧
      ∀ s, r'.map.contains s = (decide (s = seg) || r.map.contains s) := by
  obtain ⟨map, hins, hmap, hsize, hmem⟩ := Bitmap.insert_spec hr.map
    (show seg < r.map.size by rw [hr.size]; exact hseg)
  have hset : map.toFinset = insert seg r.map.toFinset := by
    ext s
    simp [hmem]
  refine ⟨⟨map, if r.map.contains seg then r.count else r.count + 1⟩, ?_,
    ⟨hmap, by rw [hsize, hr.size], ?_⟩, hmem⟩
  · unfold add
    rw [hins]
    rfl
  · show (if r.map.contains seg then r.count else r.count + 1) = map.toFinset.card
    rw [hset]
    split_ifs with hin
    · rw [Finset.insert_eq_of_mem (by simpa using hin), hr.count_eq]
    · rw [Finset.card_insert_of_notMem (by simpa using hin), hr.count_eq]

/-- Removing a segment of the area. -/
theorem remove_spec (hr : r.WellFormed segments) (hseg : seg < segments) :
    ∃ r', r.remove seg = .ok r' ∧ r'.WellFormed segments ∧
      ∀ s, r'.map.contains s = (!decide (s = seg) && r.map.contains s) := by
  obtain ⟨map, hera, hmap, hsize, hmem⟩ := Bitmap.erase_spec hr.map
    (show seg < r.map.size by rw [hr.size]; exact hseg)
  have hset : map.toFinset = r.map.toFinset.erase seg := by
    ext s
    simp [hmem]
  unfold remove
  rw [hera, Guarded.ok_bind]
  dsimp only
  cases hin : r.map.contains seg with
  | false =>
    refine ⟨⟨map, r.count⟩, rfl, ⟨hmap, by rw [hsize, hr.size], ?_⟩, hmem⟩
    show r.count = map.toFinset.card
    rw [hset, Finset.erase_eq_of_notMem (by simp [hin]), hr.count_eq]
  | true =>
    have hpos : 1 ≤ r.count := by
      rw [hr.count_eq]
      exact Finset.card_pos.mpr ⟨seg, by simpa using hin⟩
    refine ⟨⟨map, r.count - 1⟩, ?_, ⟨hmap, by rw [hsize, hr.size], ?_⟩, hmem⟩
    · rw [if_pos rfl, Guarded.minus_eq hpos]
      rfl
    · show r.count - 1 = map.toFinset.card
      rw [hset, Finset.card_erase_of_mem (by simpa using hin), hr.count_eq]

/-- Well-formed rosters with the same members are the same. -/
theorem WellFormed.eq_of_contains {r' : Roster} (hr : r.WellFormed segments)
    (hr' : r'.WellFormed segments) (h : ∀ s, r'.map.contains s = r.map.contains s) : r' = r := by
  have hmap := hr.map.eq_of_contains hr'.map (hr'.size.trans hr.size.symm) h
  have hcount : r'.count = r.count := by rw [hr'.count_eq, hr.count_eq, hmap]
  cases r
  cases r'
  cases hmap
  cases hcount
  rfl

end Roster

/-! ## The lists together -/

/-- The classes that an entry under a class concerns, for a segment of a log: the class itself, and
for a dirty segment the class of its log. -/
def DirtyClass.Concerns (c : DirtyClass) (log : Option Log) (c' : DirtyClass) : Prop :=
  c' = c ∨ c = .dirty ∧ ∃ l, log = some l ∧ c' = .ofLog l

/-- An entry of a prefree segment concerns the prefree list. -/
@[simp]
theorem DirtyClass.prefree_concerns {log : Option Log} {c : DirtyClass} :
    prefree.Concerns log c ↔ c = prefree := by
  simp [Concerns]

/-- An entry of a dirty segment concerns the dirty list and the list of its log. -/
@[simp]
theorem DirtyClass.dirty_concerns {log : Option Log} {c : DirtyClass} :
    dirty.Concerns log c ↔ c = dirty ∨ ∃ l, log = some l ∧ c = ofLog l := by
  simp [Concerns]

namespace DirtyLists

/-- Lists over the segments and sections of an area that count their members. -/
structure WellFormed (d : DirtyLists) (segments sections : ℕ) : Prop where
  /-- The roster of each class is well formed. -/
  roster : ∀ c, (d.roster c).WellFormed segments
  /-- The map of staged sections is well formed. -/
  staged : d.staged.WellFormed
  /-- The map of staged sections has a number for each section. -/
  staged_size : d.staged.size = sections

variable {d : DirtyLists} {segments sections seg : ℕ} {c : DirtyClass} {log : Option Log}

/-- Replacing the roster of a class changes that roster alone. -/
theorem roster_setRoster (d : DirtyLists) (c c' : DirtyClass) (r : Roster) :
    (d.setRoster c r).roster c' = if c' = c then r else d.roster c' := by
  cases c <;> cases c' <;> simp [setRoster, roster, PerLog.get_set]

/-- Replacing a roster keeps the staged sections. -/
@[simp]
theorem staged_setRoster (d : DirtyLists) (c : DirtyClass) (r : Roster) :
    (d.setRoster c r).staged = d.staged := by
  cases c <;> rfl

/-- Segments on a list are segments of the area. -/
theorem lt_of_contains (hd : d.WellFormed segments sections) (h : d.contains c seg = true) :
    seg < segments := by
  rw [← (hd.roster c).size]
  exact Bitmap.lt_size_of_contains h

/-- The empty lists are well formed. -/
theorem wellFormed_empty (segments sections : ℕ) :
    (empty segments sections).WellFormed segments sections where
  roster c := by
    have hroster : (empty segments sections).roster c = Roster.empty segments := by
      cases c <;> simp [empty, roster]
    rw [hroster]
    exact Roster.wellFormed_empty segments
  staged := Bitmap.wellFormed_empty sections
  staged_size := rfl

/-- The empty lists hold no segment. -/
@[simp]
theorem contains_empty (segments sections : ℕ) (c : DirtyClass) (seg : ℕ) :
    (empty segments sections).contains c seg = false := by
  cases c <;> simp [empty, contains, roster, Roster.empty]

/-- A roster that is replaced by a well-formed one. -/
theorem wellFormed_setRoster (hd : d.WellFormed segments sections) {r : Roster}
    (hr : r.WellFormed segments) : (d.setRoster c r).WellFormed segments sections := by
  refine ⟨?_, ?_, ?_⟩
  · intro c'
    rw [roster_setRoster]
    split_ifs
    · exact hr
    · exact hd.roster c'
  · rw [staged_setRoster]
    exact hd.staged
  · rw [staged_setRoster]
    exact hd.staged_size

/-- Adding a segment to the list of a class. -/
theorem add_spec (hd : d.WellFormed segments sections) (c : DirtyClass) (hseg : seg < segments) :
    ∃ d', d.add c seg = .ok d' ∧ d'.WellFormed segments sections ∧ d'.staged = d.staged ∧
      ∀ c' s, d'.contains c' s = true ↔ c' = c ∧ s = seg ∨ d.contains c' s = true := by
  obtain ⟨r, hadd, hr, hmem⟩ := Roster.add_spec (hd.roster c) hseg
  refine ⟨d.setRoster c r, by unfold add; rw [hadd]; rfl, wellFormed_setRoster hd hr,
    staged_setRoster d c r, ?_⟩
  intro c' s
  unfold contains
  rw [roster_setRoster]
  by_cases hc : c' = c
  · subst hc
    simp [hmem]
  · simp [hc]

/-- Removing a segment from the list of a class. -/
theorem remove_spec (hd : d.WellFormed segments sections) (c : DirtyClass) (hseg : seg < segments) :
    ∃ d', d.remove c seg = .ok d' ∧ d'.WellFormed segments sections ∧ d'.staged = d.staged ∧
      ∀ c' s, d'.contains c' s = true ↔ d.contains c' s = true ∧ ¬(c' = c ∧ s = seg) := by
  obtain ⟨r, hrem, hr, hmem⟩ := Roster.remove_spec (hd.roster c) hseg
  refine ⟨d.setRoster c r, by unfold remove; rw [hrem]; rfl, wellFormed_setRoster hd hr,
    staged_setRoster d c r, ?_⟩
  intro c' s
  unfold contains
  rw [roster_setRoster]
  by_cases hc : c' = c
  · subst hc
    simp [hmem, and_comm]
  · simp [hc]

/-- Staging a section of the area. -/
theorem stage_spec (hd : d.WellFormed segments sections) {sec : ℕ} (hsec : sec < sections) :
    ∃ d', d.stage sec = .ok (d.staged.contains sec, d') ∧ d'.WellFormed segments sections ∧
      (∀ c s, d'.contains c s = d.contains c s) ∧
      ∀ k, d'.staged.contains k = (decide (k = sec) || d.staged.contains k) := by
  obtain ⟨staged, hins, hmap, hsize, hmem⟩ := Bitmap.insert_spec hd.staged
    (show sec < d.staged.size by rw [hd.staged_size]; exact hsec)
  have hroster : ∀ c, ({ d with staged } : DirtyLists).roster c = d.roster c := by
    intro c
    cases c <;> rfl
  refine ⟨{ d with staged }, by unfold stage; rw [hins]; rfl,
    ⟨fun c => by rw [hroster]; exact hd.roster c, hmap, by rw [hsize, hd.staged_size]⟩, ?_, hmem⟩
  intro c s
  unfold contains
  rw [hroster]

/-- Taking back the staging of a section of the area. -/
theorem unstage_spec (hd : d.WellFormed segments sections) {sec : ℕ} (hsec : sec < sections) :
    ∃ d', d.unstage sec = .ok (d.staged.contains sec, d') ∧ d'.WellFormed segments sections ∧
      (∀ c s, d'.contains c s = d.contains c s) ∧
      ∀ k, d'.staged.contains k = (!decide (k = sec) && d.staged.contains k) := by
  obtain ⟨staged, hera, hmap, hsize, hmem⟩ := Bitmap.erase_spec hd.staged
    (show sec < d.staged.size by rw [hd.staged_size]; exact hsec)
  have hroster : ∀ c, ({ d with staged } : DirtyLists).roster c = d.roster c := by
    intro c
    cases c <;> rfl
  refine ⟨{ d with staged }, by unfold unstage; rw [hera]; rfl,
    ⟨fun c => by rw [hroster]; exact hd.roster c, hmap, by rw [hsize, hd.staged_size]⟩, ?_, hmem⟩
  intro c s
  unfold contains
  rw [hroster]

/-- An entry puts the segment on the lists that it concerns. -/
theorem enter_spec (hd : d.WellFormed segments sections) (c : DirtyClass) (log : Option Log)
    (hseg : seg < segments) :
    ∃ d', d.enter seg c log = .ok d' ∧ d'.WellFormed segments sections ∧ d'.staged = d.staged ∧
      ∀ c' s, d'.contains c' s = true ↔ s = seg ∧ c.Concerns log c' ∨ d.contains c' s = true := by
  obtain ⟨d₁, hadd, hd₁, hstaged, hmem⟩ := add_spec hd c hseg
  by_cases hdirty : c = .dirty ∧ ∃ l, log = some l
  · -- A dirty segment of a log is put on two lists.
    obtain ⟨rfl, l, rfl⟩ := hdirty
    obtain ⟨d₂, hadd₂, hd₂, hstaged₂, hmem₂⟩ := add_spec hd₁ (.ofLog l) hseg
    refine ⟨d₂, ?_, hd₂, by rw [hstaged₂, hstaged], ?_⟩
    · unfold enter
      rw [hadd]
      exact hadd₂
    · intro c' s
      rw [hmem₂, hmem]
      unfold DirtyClass.Concerns
      simp
      tauto
  · -- Otherwise the one list is all, whatever the log.
    refine ⟨d₁, ?_, hd₁, hstaged, ?_⟩
    · unfold enter
      rw [hadd, Guarded.ok_bind]
      cases c with
      | dirty =>
        cases log with
        | none => rfl
        | some l => exact absurd ⟨rfl, l, rfl⟩ hdirty
      | ofLog l => rfl
      | prefree => rfl
    · intro c' s
      have hconcerns : c.Concerns log c' ↔ c' = c := by
        unfold DirtyClass.Concerns
        refine ⟨?_, Or.inl⟩
        rintro (h | ⟨hc, l, hl, -⟩)
        · exact h
        · exact absurd ⟨hc, l, hl⟩ hdirty
      rw [hmem, hconcerns, and_comm]

/-- Striking a segment from a class other than the dirty one touches that list alone. -/
theorem strike_eq_remove (d : DirtyLists) (seg : ℕ) (hc : c ≠ .dirty) (log : Option Log)
    (emptied : Option ℕ) : d.strike seg c log emptied = d.remove c seg := by
  unfold strike
  cases d.remove c seg with
  | error t => rfl
  | ok d' =>
    rw [Guarded.ok_bind, if_neg hc]
    rfl

/-- Taking a segment off the list of its log, which a segment without a log does not need. In both
cases the lists go on to whatever is `next`. -/
theorem remove_log_spec (hd : d.WellFormed segments sections) (log : Option Log)
    (hseg : seg < segments) :
    ∃ d' : DirtyLists, (∀ next : DirtyLists → Guarded DirtyLists,
        (match log with
          | some l => do
            let d ← d.remove (.ofLog l) seg
            next d
          | none => do
            let d ← pure d
            next d) = next d') ∧
      d'.WellFormed segments sections ∧ d'.staged = d.staged ∧
      ∀ c' s, d'.contains c' s = true ↔
        d.contains c' s = true ∧ ¬(s = seg ∧ ∃ l, log = some l ∧ c' = .ofLog l) := by
  cases log with
  | none =>
    refine ⟨d, fun next => rfl, hd, rfl, fun c' s => ?_⟩
    simp
  | some l =>
    obtain ⟨d', hrem, hd', hstaged, hmem⟩ := remove_spec hd (.ofLog l) hseg
    refine ⟨d', fun next => ?_, hd', hstaged, fun c' s => ?_⟩
    · dsimp only
      rw [hrem, Guarded.ok_bind]
    · rw [hmem]
      simp
      tauto

/-- Striking a dirty segment takes it off the dirty list and the list of its log, and takes back the
staging of a section that has emptied. -/
theorem strike_dirty_spec (hd : d.WellFormed segments sections) (log : Option Log)
    {emptied : Option ℕ} (hseg : seg < segments)
    (hemptied : ∀ sec, emptied = some sec → sec < sections) :
    ∃ d', d.strike seg .dirty log emptied = .ok d' ∧ d'.WellFormed segments sections ∧
      (∀ c' s, d'.contains c' s = true ↔
        d.contains c' s = true ∧ ¬(s = seg ∧ DirtyClass.dirty.Concerns log c')) ∧
      ∀ k, d'.staged.contains k = true ↔ d.staged.contains k = true ∧ emptied ≠ some k := by
  obtain ⟨d₁, hrem, hd₁, hstaged₁, hmem₁⟩ := remove_spec hd .dirty hseg
  obtain ⟨d₂, hlog, hd₂, hstaged₂, hmem₂⟩ := remove_log_spec hd₁ log hseg
  -- The two removals together take the segment off the lists that it concerns.
  have hmem : ∀ c' s, d₂.contains c' s = true ↔
      d.contains c' s = true ∧ ¬(s = seg ∧ DirtyClass.dirty.Concerns log c') := by
    intro c' s
    unfold DirtyClass.Concerns
    rw [hmem₂, hmem₁]
    simp
    tauto
  have hstaged : d₂.staged = d.staged := hstaged₂.trans hstaged₁
  cases emptied with
  | none =>
    refine ⟨d₂, ?_, hd₂, hmem, by simp [hstaged]⟩
    unfold strike
    rw [hrem, Guarded.ok_bind, if_pos rfl]
    exact hlog _
  | some sec =>
    obtain ⟨d₃, hun, hd₃, hmem₃, hstaged₃⟩ := unstage_spec hd₂ (hemptied sec rfl)
    refine ⟨d₃, ?_, hd₃, ?_, ?_⟩
    · unfold strike
      rw [hrem, Guarded.ok_bind, if_pos rfl]
      refine (hlog _).trans ?_
      dsimp only
      rw [hun]
      rfl
    · intro c' s
      rw [hmem₃, hmem]
    · intro k
      rw [hstaged₃, hstaged, Bool.and_eq_true, and_comm]
      refine and_congr_right fun _ => ?_
      rw [Bool.not_eq_true', decide_eq_false_iff_not, ne_eq, Option.some.injEq, eq_comm]

/-- An entry keeps the lists well formed. -/
theorem wellFormed_of_enter {d' : DirtyLists} (hd : d.WellFormed segments sections)
    (hseg : seg < segments) (h : d.enter seg c log = .ok d') : d'.WellFormed segments sections := by
  obtain ⟨d₁, henter, hd₁, -⟩ := enter_spec hd c log hseg
  cases henter.symm.trans h
  exact hd₁

/-- Striking a dirty segment keeps the lists well formed. -/
theorem wellFormed_of_strike_dirty {d' : DirtyLists} {emptied : Option ℕ}
    (hd : d.WellFormed segments sections) (hseg : seg < segments)
    (hemptied : ∀ sec, emptied = some sec → sec < sections)
    (h : d.strike seg .dirty log emptied = .ok d') : d'.WellFormed segments sections := by
  obtain ⟨d₁, hstrike, hd₁, -⟩ := strike_dirty_spec hd log hseg hemptied
  cases hstrike.symm.trans h
  exact hd₁

/-- Well-formed lists that list the same segments and stage the same sections are the same. -/
theorem WellFormed.eq_of_contains {d d' : DirtyLists} {segments sections : ℕ}
    (hd : d.WellFormed segments sections) (hd' : d'.WellFormed segments sections)
    (hlists : ∀ c s, d'.contains c s = d.contains c s)
    (hstaged : ∀ sec, d'.staged.contains sec = d.staged.contains sec) : d' = d := by
  have hroster : ∀ c, d'.roster c = d.roster c :=
    fun c => (hd.roster c).eq_of_contains (hd'.roster c) (hlists c)
  have hbyLog : d'.byLog = d.byLog := PerLog.eq_of_get fun log => hroster (.ofLog log)
  have hdirty : d'.dirty = d.dirty := hroster .dirty
  have hprefree : d'.prefree = d.prefree := hroster .prefree
  have hmap := hd.staged.eq_of_contains hd'.staged (hd'.staged_size.trans hd.staged_size.symm)
    hstaged
  cases d
  cases d'
  cases hbyLog
  cases hdirty
  cases hprefree
  cases hmap
  rfl

end DirtyLists

end Reclaim
