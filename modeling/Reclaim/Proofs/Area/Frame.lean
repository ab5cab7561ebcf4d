import Reclaim.Area.Checkpoint
import Reclaim.Area.Writing
import Reclaim.Proofs.Area.DirtyLists
import Reclaim.Proofs.Geometry

/-!
# What appending, dropping and checkpoints leave alone

The geometry, the limit and the cursors of the victim search, and the section under collection are
set by a search or on request only; writing, dropping and freeing blocks leave them as they are, and
stage no section (`Area.Framed`). The lemmas hold of any area, sound or not, so that they can be
used wherever an operation has given a result.
-/

namespace Reclaim

/-- Erasing a number adds no member. -/
theorem Bitmap.contains_of_erase {b b' : Bitmap} {i j : ℕ} {present : Bool}
    (h : b.erase i = .ok (present, b')) (hj : b'.contains j = true) : b.contains j = true := by
  unfold erase at h
  split_ifs at h with hi
  cases h
  have hword : b.word (i / 64) = b.words[i / 64] := by
    unfold word
    rw [Array.getElem?_eq_getElem hi, Option.getD_some]
  unfold contains at hj ⊢
  rw [Bool.and_eq_true] at hj ⊢
  refine ⟨hj.1, ?_⟩
  have hbit := hj.2
  unfold word at hbit
  dsimp only at hbit
  rw [Array.getElem?_set] at hbit
  split_ifs at hbit with hdiv
  · -- The word that was changed only lost a bit.
    rw [Option.getD_some, Word.bit_and_not_single _ (Nat.mod_lt _ (by omega)),
      Bool.and_eq_true] at hbit
    rw [← hdiv, hword]
    exact hbit.1
  · exact hbit

namespace DirtyLists

variable {d d' : DirtyLists} {seg : ℕ} {c : DirtyClass} {log : Option Log}

/-- Adding a segment to a roster stages nothing. -/
theorem staged_of_add (h : d.add c seg = .ok d') : d'.staged = d.staged := by
  unfold add at h
  obtain ⟨r, -, h⟩ := Guarded.bind_eq_ok.mp h
  cases h
  exact staged_setRoster d c r

/-- Removing a segment from a roster stages nothing. -/
theorem staged_of_remove (h : d.remove c seg = .ok d') : d'.staged = d.staged := by
  unfold remove at h
  obtain ⟨r, -, h⟩ := Guarded.bind_eq_ok.mp h
  cases h
  exact staged_setRoster d c r

/-- Entering a segment stages nothing. -/
theorem staged_of_enter (h : d.enter seg c log = .ok d') : d'.staged = d.staged := by
  unfold enter at h
  obtain ⟨d₁, hadd, h⟩ := Guarded.bind_eq_ok.mp h
  have hsame := staged_of_add hadd
  split at h
  · exact (staged_of_add h).trans hsame
  · cases h
    exact hsame

/-- Taking back a staging stages nothing. -/
theorem staged_of_unstage {sec k : ℕ} {present : Bool} (h : d.unstage sec = .ok (present, d'))
    (hk : d'.staged.contains k = true) : d.staged.contains k = true := by
  unfold unstage at h
  obtain ⟨⟨was, staged⟩, herase, h⟩ := Guarded.bind_eq_ok.mp h
  cases h
  exact Bitmap.contains_of_erase herase hk

/-- Striking a segment stages nothing. -/
theorem staged_of_strike {emptied : Option ℕ} {k : ℕ} (h : d.strike seg c log emptied = .ok d')
    (hk : d'.staged.contains k = true) : d.staged.contains k = true := by
  unfold strike at h
  obtain ⟨d₁, hremove, h⟩ := Guarded.bind_eq_ok.mp h
  rw [← staged_of_remove hremove]
  dsimp only at h
  split_ifs at h
  · cases emptied with
    | none =>
      cases log with
      | none =>
        cases h
        exact hk
      | some log =>
        obtain ⟨d₂, hlog, h⟩ := Guarded.bind_eq_ok.mp h
        cases h
        rw [← staged_of_remove hlog]
        exact hk
    | some sec =>
      cases log with
      | none =>
        obtain ⟨d₂, hsame, h⟩ := Guarded.bind_eq_ok.mp h
        cases hsame
        obtain ⟨⟨present, d₃⟩, hunstage, h⟩ := Guarded.bind_eq_ok.mp h
        cases h
        exact staged_of_unstage hunstage hk
      | some log =>
        obtain ⟨d₂, hlog, h⟩ := Guarded.bind_eq_ok.mp h
        obtain ⟨⟨present, d₃⟩, hunstage, h⟩ := Guarded.bind_eq_ok.mp h
        cases h
        rw [← staged_of_remove hlog]
        exact staged_of_unstage hunstage hk
  · cases h
    exact hk

end DirtyLists

namespace Area

/-- What an operation that neither searches nor sets anything on request leaves alone. -/
structure Framed (a a' : Area) : Prop where
  /-- The geometry is the same. -/
  geometry : a'.geometry = a.geometry
  /-- The limit of the victim search is the same. -/
  searchLimit : a'.searchLimit = a.searchLimit
  /-- The searches resume where they did. -/
  cursors : a'.cursors = a.cursors
  /-- The section under collection is the same. -/
  claimed : a'.claimed = a.claimed
  /-- No section is staged that was not. -/
  staged : ∀ sec, a'.dirty.staged.contains sec = true → a.dirty.staged.contains sec = true

variable {a a' : Area} {seg : ℕ}

/-- Doing nothing leaves everything alone. -/
theorem Framed.refl (a : Area) : a.Framed a := ⟨rfl, rfl, rfl, rfl, fun _ => id⟩

/-- What two operations leave alone, they leave alone one after the other. -/
theorem Framed.trans {a₁ : Area} (h : a.Framed a₁) (h' : a₁.Framed a') : a.Framed a' where
  geometry := h'.geometry.trans h.geometry
  searchLimit := h'.searchLimit.trans h.searchLimit
  cursors := h'.cursors.trans h.cursors
  claimed := h'.claimed.trans h.claimed
  staged sec hsec := h.staged sec (h'.staged sec hsec)

/-- The table, the free maps and the heads can change on their own. -/
theorem framed_of_dirty (a : Area) (table : SegmentTable) (free : FreeMap) (heads : PerLog Head)
    {dirty : DirtyLists}
    (h : ∀ sec, dirty.staged.contains sec = true → a.dirty.staged.contains sec = true) :
    a.Framed { a with table, free, heads, dirty } :=
  ⟨rfl, rfl, rfl, rfl, h⟩

/-! ## Classifying and dropping -/

/-- Classifying a segment changes the dirty lists alone. -/
theorem classify_eq (h : a.classify seg = .ok a') : ∃ dirty, a' = { a with dirty } := by
  unfold classify at h
  split_ifs at h
  · cases h
    exact ⟨a.dirty, rfl⟩
  · obtain ⟨s, -, h⟩ := Guarded.bind_eq_ok.mp h
    obtain ⟨live, -, h⟩ := Guarded.bind_eq_ok.mp h
    dsimp only at h
    generalize (if live = 0 then some (a.geometry.sectionOf seg) else none) = emptied at h
    split_ifs at h
    · obtain ⟨d, -, h⟩ := Guarded.bind_eq_ok.mp h
      obtain ⟨dirty, -, h⟩ := Guarded.bind_eq_ok.mp h
      cases h
      exact ⟨dirty, rfl⟩
    all_goals
      obtain ⟨dirty, -, h⟩ := Guarded.bind_eq_ok.mp h
      cases h
      exact ⟨dirty, rfl⟩

/-- What classifying a segment leaves alone. -/
theorem framed_of_classify (h : a.classify seg = .ok a') : a.Framed a' := by
  unfold classify at h
  split_ifs at h
  · cases h
    exact Framed.refl a
  · obtain ⟨s, -, h⟩ := Guarded.bind_eq_ok.mp h
    obtain ⟨live, -, h⟩ := Guarded.bind_eq_ok.mp h
    dsimp only at h
    generalize (if live = 0 then some (a.geometry.sectionOf seg) else none) = emptied at h
    split_ifs at h
    · obtain ⟨d, henter, h⟩ := Guarded.bind_eq_ok.mp h
      obtain ⟨dirty, hstrike, h⟩ := Guarded.bind_eq_ok.mp h
      cases h
      refine framed_of_dirty a _ _ _ fun sec hsec => ?_
      rw [← DirtyLists.staged_of_enter henter]
      exact DirtyLists.staged_of_strike hstrike hsec
    · obtain ⟨dirty, henter, h⟩ := Guarded.bind_eq_ok.mp h
      cases h
      refine framed_of_dirty a _ _ _ fun sec hsec => ?_
      rw [← DirtyLists.staged_of_enter henter]
      exact hsec
    · obtain ⟨dirty, hstrike, h⟩ := Guarded.bind_eq_ok.mp h
      cases h
      exact framed_of_dirty a _ _ _ fun sec => DirtyLists.staged_of_strike hstrike

/-- A drop changes nothing, or drops a live block from its record and classifies the segment. -/
theorem invalidate_cases {addr : Address} {r : Outcome Unit} (h : a.invalidate addr = .ok (r, a')) :
    a' = a ∨ ∃ seg table, a.geometry.segmentOf? addr = some seg ∧
      a.table.drop seg (a.geometry.offsetOf addr) = .ok (true, table) ∧
      ({ a with table } : Area).classify seg = .ok a' := by
  unfold invalidate at h
  split_ifs at h
  · split at h
    · cases h
      exact Or.inl rfl
    · next seg hseg =>
      obtain ⟨⟨changed, table⟩, hdrop, h⟩ := Guarded.bind_eq_ok.mp h
      dsimp only at h
      split_ifs at h with hchanged
      · obtain ⟨a₁, hclassify, h⟩ := Guarded.bind_eq_ok.mp h
        cases h
        rw [hchanged] at hdrop
        exact Or.inr ⟨seg, table, hseg, hdrop, hclassify⟩
      · cases h
        exact Or.inl rfl
  · cases h
    exact Or.inl rfl

/-- What dropping a block leaves alone. -/
theorem framed_of_invalidate {addr : Address} {r : Outcome Unit}
    (h : a.invalidate addr = .ok (r, a')) : a.Framed a' := by
  rcases invalidate_cases h with hsame | ⟨seg, table, -, -, hclassify⟩
  · rw [hsame]
    exact Framed.refl a
  · exact (framed_of_dirty a table a.free a.heads fun _ => id).trans (framed_of_classify hclassify)

/-! ## Appending -/

/-- What opening a segment for a log leaves alone. -/
theorem framed_of_openSegment {log : Log} (h : a.openSegment log seg = .ok a') : a.Framed a' := by
  unfold openSegment at h
  obtain ⟨free, -, h⟩ := Guarded.bind_eq_ok.mp h
  obtain ⟨table, -, h⟩ := Guarded.bind_eq_ok.mp h
  cases h
  exact framed_of_dirty a table free _ fun _ => id

/-- What opening the first segments of the logs leaves alone. -/
theorem framed_of_openLogs : ∀ {logs : List Log} {a : Area} {hint : ℕ},
    a.openLogs logs hint = .ok (.ok a') → a.Framed a'
  | [], _, _, h => by
    cases h
    exact Framed.refl a'
  | log :: logs, a, hint, h => by
    unfold openLogs at h
    split at h
    · cases h
    · obtain ⟨a₁, hopen, h⟩ := Guarded.bind_eq_ok.mp h
      exact (framed_of_openSegment hopen).trans (framed_of_openLogs h)

/-- What moving a log on leaves alone. -/
theorem framed_of_advance {log : Log} {r : Outcome Unit} (h : a.advance log = .ok (r, a')) :
    a.Framed a' := by
  unfold advance at h
  dsimp only at h
  split at h
  · cases h
    exact Framed.refl a
  · obtain ⟨a₁, hopen, h⟩ := Guarded.bind_eq_ok.mp h
    obtain ⟨a₂, hclassify, h⟩ := Guarded.bind_eq_ok.mp h
    cases h
    exact (framed_of_openSegment hopen).trans (framed_of_classify hclassify)

/-- What appending a block leaves alone. -/
theorem framed_of_append {log : Log} {now : ℕ} {addr : Address}
    (h : a.append log now = .ok (addr, a')) : a.Framed a' := by
  unfold append at h
  obtain ⟨⟨changed, table⟩, -, h⟩ := Guarded.bind_eq_ok.mp h
  generalize hheads : a.heads.set log _ = heads at h
  have hfill : a.Framed { a with table, heads } := framed_of_dirty a table a.free heads fun _ => id
  dsimp only at h
  split_ifs at h
  · obtain ⟨⟨r, a₁⟩, hadvance, h⟩ := Guarded.bind_eq_ok.mp h
    cases h
    exact hfill.trans (framed_of_advance hadvance)
  · cases h
    exact hfill

/-- What a request for a block leaves alone. -/
theorem framed_of_allocate {log : Option Log} {now : ℕ} {r : Outcome Address}
    (h : a.allocate log now = .ok (r, a')) : a.Framed a' := by
  unfold allocate at h
  split at h
  · cases h
    exact Framed.refl a
  · split_ifs at h
    · obtain ⟨⟨s, a₁⟩, hadvance, h⟩ := Guarded.bind_eq_ok.mp h
      have hmoved := framed_of_advance hadvance
      cases s with
      | error status =>
        cases h
        exact hmoved
      | ok u =>
        obtain ⟨⟨addr, a₂⟩, happend, h⟩ := Guarded.bind_eq_ok.mp h
        cases h
        exact hmoved.trans (framed_of_append happend)
    · obtain ⟨⟨addr, a₁⟩, happend, h⟩ := Guarded.bind_eq_ok.mp h
      cases h
      exact framed_of_append happend

/-- A log that has moved on stands at the start of its new segment. -/
theorem next_of_advance {log : Log} (h : a.advance log = .ok (.ok (), a')) :
    (a'.heads.get log).next = 0 := by
  unfold advance at h
  dsimp only at h
  split at h
  · cases h
  · obtain ⟨a₁, hopen, h⟩ := Guarded.bind_eq_ok.mp h
    obtain ⟨a₂, hclassify, h⟩ := Guarded.bind_eq_ok.mp h
    cases h
    obtain ⟨dirty, rfl⟩ := classify_eq hclassify
    unfold openSegment at hopen
    obtain ⟨free, -, hopen⟩ := Guarded.bind_eq_ok.mp hopen
    obtain ⟨table, -, hopen⟩ := Guarded.bind_eq_ok.mp hopen
    cases hopen
    simp [PerLog.get_set]

section

-- A property of areas with an accepted geometry that is kept when a log moves on, and when the
-- block at the head of a log is written at a time and the head moves behind it.
variable {I : Area → Prop} {now : ℕ} (hvalid : ∀ {a}, I a → a.geometry.Valid)
  (hadvance : ∀ {a a' : Area} {log : Log} {r : Outcome Unit}, I a →
    a.advance log = .ok (r, a') → I a')
  (hfill : ∀ {a : Area} {log : Log} {changed : Bool} {table : SegmentTable}, I a →
    (a.heads.get log).next < a.geometry.segmentBlocks →
    a.table.fill (a.heads.get log).segment (a.heads.get log).next now = .ok (changed, table) →
    I { a with
      table
      heads := a.heads.set log { a.heads.get log with next := (a.heads.get log).next + 1 } })

include hadvance hfill

/-- The property is kept by appending to a log that stands inside its segment. -/
theorem keeps_append {log : Log} {addr : Address} (ha : I a)
    (hnext : (a.heads.get log).next < a.geometry.segmentBlocks)
    (h : a.append log now = .ok (addr, a')) : I a' := by
  unfold append at h
  obtain ⟨⟨changed, table⟩, htable, h⟩ := Guarded.bind_eq_ok.mp h
  have hfilled := hfill ha hnext htable
  generalize a.heads.set log _ = heads at h hfilled
  dsimp only at h
  split_ifs at h
  · obtain ⟨⟨r, a₁⟩, hmoved, h⟩ := Guarded.bind_eq_ok.mp h
    cases h
    exact hadvance hfilled hmoved
  · cases h
    exact hfilled

include hvalid

/-- The property is kept by a request for a block. -/
theorem keeps_allocate {log : Option Log} {r : Outcome Address} (ha : I a)
    (h : a.allocate log now = .ok (r, a')) : I a' := by
  unfold allocate at h
  split at h
  · cases h
    exact ha
  · next log =>
    split_ifs at h with hfull
    · obtain ⟨⟨s, a₁⟩, hmoved, h⟩ := Guarded.bind_eq_ok.mp h
      have ha₁ := hadvance ha hmoved
      cases s with
      | error status =>
        cases h
        exact ha₁
      | ok u =>
        obtain ⟨⟨addr, a₂⟩, happend, h⟩ := Guarded.bind_eq_ok.mp h
        cases h
        have hnext : (a₁.heads.get log).next < a₁.geometry.segmentBlocks := by
          rw [next_of_advance hmoved]
          exact Geometry.segmentBlocks_pos (hvalid ha₁)
        exact keeps_append hadvance hfill ha₁ hnext happend
    · obtain ⟨⟨addr, a₁⟩, happend, h⟩ := Guarded.bind_eq_ok.mp h
      cases h
      exact keeps_append hadvance hfill ha (Nat.lt_of_not_le hfull) happend

end

section

-- A property of areas with an accepted geometry that lets every log move on and the block at the
-- head of a log be written at a time, and that is kept then.
variable {I : Area → Prop} {now : ℕ} (hvalid : ∀ {a}, I a → a.geometry.Valid)
  (hadvance : ∀ {a : Area} (log : Log), I a → ∃ r a', a.advance log = .ok (r, a') ∧ I a')
  (hfill : ∀ {a : Area} {log : Log}, I a → (a.heads.get log).next < a.geometry.segmentBlocks →
    ∃ changed table,
      a.table.fill (a.heads.get log).segment (a.heads.get log).next now = .ok (changed, table) ∧
      I { a with
        table
        heads := a.heads.set log { a.heads.get log with next := (a.heads.get log).next + 1 } })

include hadvance hfill

/-- A block can be appended to a log that stands inside its segment, and the property is kept. -/
theorem exists_append {log : Log} (ha : I a)
    (hnext : (a.heads.get log).next < a.geometry.segmentBlocks) :
    ∃ addr a', a.append log now = .ok (addr, a') ∧ I a' := by
  obtain ⟨changed, table, htable, hfilled⟩ := hfill ha hnext
  unfold append
  dsimp only
  rw [htable, Guarded.ok_bind]
  generalize a.heads.set log _ = heads at hfilled ⊢
  dsimp only
  split_ifs
  · obtain ⟨r, a', hmoved, ha'⟩ := hadvance log hfilled
    exact ⟨_, a', by rw [hmoved]; rfl, ha'⟩
  · exact ⟨_, _, rfl, hfilled⟩

include hvalid

/-- A request for a block gives a result, and the property is kept. -/
theorem exists_allocate (log : Option Log) (ha : I a) :
    ∃ r a', a.allocate log now = .ok (r, a') ∧ I a' := by
  unfold allocate
  cases log with
  | none => exact ⟨_, a, rfl, ha⟩
  | some log =>
    dsimp only
    split_ifs with hfull
    · obtain ⟨s, a₁, hmoved, ha₁⟩ := hadvance log ha
      rw [hmoved, Guarded.ok_bind]
      cases s with
      | error status => exact ⟨_, a₁, rfl, ha₁⟩
      | ok u =>
        have hnext : (a₁.heads.get log).next < a₁.geometry.segmentBlocks := by
          rw [next_of_advance hmoved]
          exact Geometry.segmentBlocks_pos (hvalid ha₁)
        obtain ⟨addr, a₂, happend, ha₂⟩ := exists_append hadvance hfill ha₁ hnext
        exact ⟨.ok addr, a₂, by dsimp only; rw [happend]; rfl, ha₂⟩
    · obtain ⟨addr, a₁, happend, ha₁⟩ :=
        exists_append hadvance hfill ha (Nat.lt_of_not_le hfull)
      exact ⟨.ok addr, a₁, by rw [happend]; rfl, ha₁⟩

end

/-! ## Checkpoints -/

/-- What freeing a prefree segment leaves alone. -/
theorem framed_of_releaseSegment (h : a.releaseSegment seg = .ok a') : a.Framed a' := by
  unfold releaseSegment at h
  obtain ⟨s, -, h⟩ := Guarded.bind_eq_ok.mp h
  obtain ⟨dirty, hstrike, h⟩ := Guarded.bind_eq_ok.mp h
  obtain ⟨⟨freed, free⟩, -, h⟩ := Guarded.bind_eq_ok.mp h
  cases h
  exact framed_of_dirty a a.table free a.heads fun _ => DirtyLists.staged_of_strike hstrike

/-- What freeing a list of segments leaves alone. -/
theorem framed_of_releaseAll : ∀ {segs : List ℕ} {a : Area}, a.releaseAll segs = .ok a' →
    a.Framed a'
  | [], _, h => by
    cases h
    exact Framed.refl a'
  | seg :: segs, a, h => by
    unfold releaseAll at h
    obtain ⟨a₁, hrelease, h⟩ := Guarded.bind_eq_ok.mp h
    exact (framed_of_releaseSegment hrelease).trans (framed_of_releaseAll h)

/-- What a checkpoint leaves alone. -/
theorem framed_of_checkpoint {n : ℕ} (h : a.checkpoint = .ok (n, a')) : a.Framed a' := by
  unfold checkpoint at h
  obtain ⟨a₁, hrelease, h⟩ := Guarded.bind_eq_ok.mp h
  cases h
  exact (framed_of_dirty a a.table.save a.free a.heads fun _ => id).trans
    (framed_of_releaseAll hrelease)

/-- One area comes from another by allocations, invalidations and checkpoints. -/
inductive Worked (a : Area) : Area → Prop
  /-- Nothing has been done. -/
  | refl : Worked a a
  /-- A block has been allocated, or the allocation refused. -/
  | allocate {a₁ a' : Area} {log : Option Log} {now : ℕ} {r : Outcome Address}
      (prior : Worked a a₁) (last : a₁.allocate log now = .ok (r, a')) : Worked a a'
  /-- A block has been dropped, or the drop refused. -/
  | invalidate {a₁ a' : Area} {addr : Address} {r : Outcome Unit} (prior : Worked a a₁)
      (last : a₁.invalidate addr = .ok (r, a')) : Worked a a'
  /-- A checkpoint has freed the prefree segments. -/
  | checkpoint {a₁ a' : Area} {n : ℕ} (prior : Worked a a₁)
      (last : a₁.checkpoint = .ok (n, a')) : Worked a a'

/-- What allocations, invalidations and checkpoints in a row leave alone. -/
theorem Worked.framed (h : a.Worked a') : a.Framed a' := by
  induction h with
  | refl => exact Framed.refl a
  | allocate _ last ih => exact ih.trans (framed_of_allocate last)
  | invalidate _ last ih => exact ih.trans (framed_of_invalidate last)
  | checkpoint _ last ih => exact ih.trans (framed_of_checkpoint last)

/-! ## Requests -/

/-- What filing a segment under another log leaves alone. -/
theorem framed_of_setLog {log : Option Log} (h : a.setLog seg log = .ok a') : a.Framed a' := by
  unfold setLog at h
  obtain ⟨s, -, h⟩ := Guarded.bind_eq_ok.mp h
  dsimp only at h
  split_ifs at h
  · obtain ⟨dirty, hstrike, h⟩ := Guarded.bind_eq_ok.mp h
    exact (framed_of_dirty a _ a.free a.heads fun _ =>
      DirtyLists.staged_of_strike hstrike).trans (framed_of_classify h)
  · exact (framed_of_dirty a _ a.free a.heads fun _ => id).trans (framed_of_classify h)

/-- What overriding the age of a segment leaves alone. -/
theorem framed_of_setMtime {mtime : ℕ} (h : a.setMtime seg mtime = .ok a') : a.Framed a' := by
  unfold setMtime at h
  obtain ⟨table, -, h⟩ := Guarded.bind_eq_ok.mp h
  cases h
  exact framed_of_dirty a table a.free a.heads fun _ => id

end Area

end Reclaim
