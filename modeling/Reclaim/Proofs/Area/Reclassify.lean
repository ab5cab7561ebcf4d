import Reclaim.Proofs.Area.Runs

/-!
# Classifying a segment again

In a sound area the lists follow the records, so a segment in use that is classified again stays on
the lists that it is on, and the area stays as it is (`Sound.classify_of_used`). Classifications of
segments in use can thus be left out of a run (`Reclassifying.run`).

A free segment counts no live block either, and classifying looks at nothing but the count. It is
listed as prefree although no checkpoint has to release it (`Sound.misfiled_of_free`). The next
checkpoint releases it all the same, and if a log has opened it by then, the log goes on writing
into a segment that is not in use (`Misfiled.lost`).
-/

namespace Reclaim.Area

variable {a a' : Area} {seg : ℕ} {dirty : DirtyLists}

/-! ## Segments in use -/

/-- Classifying a closed segment of a sound area refiles it by its record, and stages the sections
that were staged before. -/
theorem Sound.classify_closed (ha : a.Sound) (hseg : seg < a.geometry.segments)
    (hopen : a.isOpen seg = false) :
    ∃ dirty, a.classify seg = .ok { a with dirty } ∧
      dirty.WellFormed a.geometry.segments a.geometry.sections ∧
      dirty.staged = a.dirty.staged ∧
      (∀ c s, s ≠ seg → dirty.contains c s = a.dirty.contains c s) ∧
      ∀ c, dirty.contains c seg = true ↔
        (a.table.record seg).FiledUnder a.geometry.segmentBlocks c := by
  obtain ⟨dirty, hclassify, hdirty, hre⟩ := ha.toBooks.classify_closed hseg hopen
    (fun h => ((ha.classified seg _).mp h).2.2)
    (fun log h => ((ha.classified seg _).mp h).2.2.2.2)
  refine ⟨dirty, hclassify, hdirty, ?_, hre.others, hre.filed⟩
  refine ha.dirty.staged.eq_of_contains hdirty.staged
    (hdirty.staged_size.trans ha.dirty.staged_size.symm) fun sec => ?_
  rw [Bool.eq_iff_iff, hre.staged]
  refine ⟨And.left, fun hstaged => ⟨hstaged, fun hemptied => ?_⟩⟩
  -- A staged section holds a live block, so it is not the one that has emptied.
  unfold emptied at hemptied
  split_ifs at hemptied with htotal
  cases hemptied
  exact absurd htotal (ha.staged_live _ hstaged)

/-- Classifying a segment in use again changes nothing. -/
theorem Sound.classify_of_used (ha : a.Sound) (hused : a.isUsed seg = true) :
    a.classify seg = .ok a := by
  cases hopen : a.isOpen seg with
  | true => exact if_pos hopen
  | false =>
    obtain ⟨dirty, hclassify, hdirty, hstaged, hothers, hfiled⟩ :=
      ha.classify_closed (ha.lt_of_used hused) hopen
    have hsame : dirty = a.dirty := by
      refine ha.dirty.eq_of_contains hdirty (fun c s => ?_) fun sec => by rw [hstaged]
      by_cases hs : s = seg
      · have hclass := ha.classified seg c
        rw [hused, hopen] at hclass
        rw [hs, Bool.eq_iff_iff, hfiled, hclass]
        simp
      · exact hothers c s hs
    rw [hclassify, hsame]

/-- Runs in which segments in use are classified again between the commands. -/
inductive Reclassifying : Area → List Event → Area → Prop
  | nil (a : Area) : Reclassifying a [] a
  | cons {a a₁ a' : Area} {events : List Event} (command : Command) (written : Option Address)
      (admissible : command.Admissible a) (ran : command.run a = .ok (written, a₁))
      (rest : Reclassifying a₁ events a') :
      Reclassifying a (⟨a, command, written, a₁⟩ :: events) a'
  | again {a a₁ a' : Area} {events : List Event} (seg? : Option ℕ)
      (used : ∀ seg, seg? = some seg → a.isUsed seg = true) (ran : a.reclassify seg? = .ok a₁)
      (rest : Reclassifying a₁ events a') : Reclassifying a events a'

/-- Classifying no segment or one in use changes nothing. -/
theorem Sound.reclassify_of_used (ha : a.Sound) {seg? : Option ℕ}
    (hused : ∀ seg, seg? = some seg → a.isUsed seg = true) : a.reclassify seg? = .ok a := by
  cases seg? with
  | none => rfl
  | some seg => exact ha.classify_of_used (hused seg rfl)

/-- Such a run is a run of its commands alone. -/
theorem Reclassifying.run {events : List Event} (h : Reclassifying a events a') (ha : a.Sound) :
    Run a events a' := by
  induction h with
  | nil a => exact Run.nil a
  | cons command written admissible ran rest ih =>
    exact Run.cons command written admissible ran (ih (Command.spec ha admissible ran).sound)
  | again seg? used ran rest ih =>
    cases ran.symm.trans (ha.reclassify_of_used used)
    exact ih ha

/-- A segment that a checkpoint of a run takes out of use is closed and holds no live block. -/
theorem Run.released {events : List Event} (h : Run a events a') (ha : a.Sound) {e : Event}
    (he : e ∈ events) (hcommand : e.command = .checkpoint) (hused : e.before.isUsed seg = true)
    (hfreed : e.after.isUsed seg = false) :
    e.before.isOpen seg = false ∧ (e.before.table.record seg).live = 0 := by
  obtain ⟨first, second, rfl⟩ := List.append_of_mem he
  obtain ⟨hbefore, -⟩ := h.stepped ha
  obtain ⟨-, -, hran, -⟩ := h.split
  rw [hcommand] at hran
  obtain ⟨⟨n, a₁⟩, hcheckpoint, hran⟩ := Guarded.bind_eq_ok.mp hran
  obtain ⟨n', a₂, hcheckpoint', hspec⟩ := hbefore.checkpoint
  cases hcheckpoint'.symm.trans hcheckpoint
  obtain ⟨-, rfl⟩ := Prod.mk.inj (Except.ok.inj hran)
  -- What goes out of use was listed as prefree.
  have hlisted : e.before.dirty.contains .prefree seg = true := by
    by_contra hout
    rw [Bool.not_eq_true] at hout
    rw [(hspec.used seg).mpr ⟨hused, hout⟩] at hfreed
    cases hfreed
  exact ((hbefore.classified seg _).mp hlisted).2

/-! ## Free segments -/

/-- Lists that differ in that a segment is listed as prefree which was not before. -/
structure Misfiled (a : Area) (seg : ℕ) (dirty : DirtyLists) : Prop where
  /-- The lists are well formed. -/
  wellFormed : dirty.WellFormed a.geometry.segments a.geometry.sections
  /-- The same sections are staged. -/
  staged : dirty.staged = a.dirty.staged
  /-- The segment is prefree, and every other is on the lists that it was on. -/
  lists : ∀ c s, dirty.contains c s = true ↔
    a.dirty.contains c s = true ∨ c = .prefree ∧ s = seg
  /-- There is one more prefree segment. -/
  count : dirty.count .prefree = a.dirty.count .prefree + 1

/-- Classifying a free segment lists it as prefree. -/
theorem Sound.misfiled_of_free (ha : a.Sound) (hseg : seg < a.geometry.segments)
    (hfree : a.isUsed seg = false) :
    ∃ dirty, a.classify seg = .ok { a with dirty } ∧ a.Misfiled seg dirty := by
  have hclosed : a.isOpen seg = false := by
    rw [isOpen_eq_false_iff]
    -- An open segment is in use.
    rintro log rfl
    rw [(ha.heads log).used] at hfree
    cases hfree
  have hunlisted := ha.contains_of_unused hfree
  have hlive := ha.unused_dead seg hfree
  obtain ⟨dirty, hclassify, hdirty, hstaged, hothers, hfiled⟩ := ha.classify_closed hseg hclosed
  have hlists : ∀ c s, dirty.contains c s = true ↔
      a.dirty.contains c s = true ∨ c = .prefree ∧ s = seg := by
    intro c s
    by_cases hs : s = seg
    · rw [hs, hfiled, hunlisted]
      cases c <;> simp [Segment.FiledUnder, hlive]
    · simp [hothers c s hs, hs]
  refine ⟨dirty, hclassify, hdirty, hstaged, hlists, ?_⟩
  have hset : dirty.prefree.map.toFinset = insert seg a.dirty.prefree.map.toFinset := by
    ext s
    rw [Bitmap.mem_toFinset, Finset.mem_insert, Bitmap.mem_toFinset, or_comm]
    exact (hlists .prefree s).trans (or_congr_right (and_iff_right rfl))
  have hnew : seg ∉ a.dirty.prefree.map.toFinset := by
    rw [Bitmap.mem_toFinset, Bool.not_eq_true]
    exact hunlisted .prefree
  show (dirty.roster .prefree).count = (a.dirty.roster .prefree).count + 1
  rw [(hdirty.roster .prefree).count_eq, (ha.dirty.roster .prefree).count_eq]
  show dirty.prefree.map.toFinset.card = a.dirty.prefree.map.toFinset.card + 1
  rw [hset, Finset.card_insert_of_notMem hnew]

/-- If a log opens a misfiled segment, the checkpoint after that takes the segment out of use while
the log writes into it. -/
theorem Misfiled.lost (h : a.Misfiled seg dirty) (ha : a.Sound) (hseg : seg < a.geometry.segments)
    (log : Log) : ∃ a₁ n a₂, ({ a with dirty } : Area).openSegment log seg = .ok a₁ ∧
      a₁.checkpoint = .ok (n, a₂) ∧ a₁.isUsed seg = true ∧ a₂.isUsed seg = false ∧
      a₂.heads.get log = ⟨seg, 0⟩ := by
  have hbooks : ({ a with dirty } : Area).Books :=
    ⟨ha.geometry, ha.table, h.wellFormed, ha.free, ha.unused_dead⟩
  obtain ⟨a₁, hopen, hopened⟩ := openSegment_spec hbooks log hseg
  obtain ⟨a₂, hcheckpoint, hreleased⟩ := hopened.books.shaped.checkpoint
  have hmap : a₁.dirty.prefree.map.WellFormed := (hopened.books.dirty.roster .prefree).map
  have hlisted : seg ∈ a₁.dirty.prefree.map.toList := by
    rw [Bitmap.mem_toList hmap, hopened.dirty]
    exact (h.lists .prefree seg).mpr (Or.inr ⟨rfl, rfl⟩)
  refine ⟨a₁, _, a₂, hopen, hcheckpoint, (hopened.used seg).mpr (Or.inl rfl), ?_, ?_⟩
  · rw [← Bool.not_eq_true, hreleased.used]
    exact fun hused => hused.2 hlisted
  · rw [hreleased.heads]
    exact (hopened.head log).trans (if_pos rfl)

/-- In every area that a run from a created one reaches, classifying no segment or one in use
changes nothing, and such classifications can be left out wherever they stand in a run, whose
checkpoints take no segment out of use that is open or holds a live block. Classifying a free
segment lists it as prefree and changes nothing else; and when a log opens the segment next, the
checkpoint after that takes the open segment out of use. -/
theorem reclassify_changes_free_only (ha : a.Reachable) :
    a.reclassify none = .ok a ∧
    (∀ seg, a.isUsed seg = true → a.reclassify (some seg) = .ok a) ∧
    (∀ events a', Reclassifying a events a' → Run a events a' ∧
      ∀ e ∈ events, e.command = .checkpoint → ∀ seg, e.before.isUsed seg = true →
        e.after.isUsed seg = false →
        e.before.isOpen seg = false ∧ (e.before.table.record seg).live = 0) ∧
    ∀ seg < a.geometry.segments, a.isUsed seg = false →
      ∃ dirty, a.reclassify (some seg) = .ok { a with dirty } ∧ a.Misfiled seg dirty ∧
        ∀ log, ∃ a₁ n a₂, ({ a with dirty } : Area).openSegment log seg = .ok a₁ ∧
          a₁.checkpoint = .ok (n, a₂) ∧ a₁.isUsed seg = true ∧ a₂.isUsed seg = false ∧
          a₂.heads.get log = ⟨seg, 0⟩ := by
  have hsound := ha.sound
  refine ⟨rfl, fun seg => hsound.classify_of_used, fun events a' hruns => ?_, ?_⟩
  · have hrun := hruns.run hsound
    exact ⟨hrun, fun e he hcommand seg => hrun.released hsound he hcommand⟩
  · intro seg hseg hfree
    obtain ⟨dirty, hclassify, hmisfiled⟩ := hsound.misfiled_of_free hseg hfree
    exact ⟨dirty, hclassify, hmisfiled, hmisfiled.lost hsound hseg⟩

/-- With a full segment, a dirty one and a free one, only the free one is filed anew. -/
theorem reclassify_changes_free_only_mixed : ∃ a : Area, a.Reachable ∧
    a.classOf 0 = .full ∧ a.reclassify (some 0) = .ok a ∧
    a.classOf 6 = .dirty ∧ a.reclassify (some 6) = .ok a ∧
    a.classOf 8 = .free ∧ ∃ dirty, a.reclassify (some 8) = .ok { a with dirty } ∧
      dirty.count .prefree = a.dirty.count .prefree + 1 := by
  obtain ⟨a₀, events, a, hcreate, hrun, h⟩ := Run.of_reaches { tinyLayout with segments := 9 }
    (List.replicate 5 (.allocate (some Log.hotData) 5) ++ [.invalidate 76])
    (fun _ a => a.classOf 0 = .full && a.isUsed 0 && a.classOf 6 = .dirty && a.isUsed 6 &&
      a.classOf 8 = .free && !a.isUsed 8 && 8 < a.geometry.segments) (by decide +kernel)
  simp only [Bool.and_eq_true, decide_eq_true_eq, Bool.not_eq_true'] at h
  obtain ⟨⟨⟨⟨⟨⟨hfull, hused⟩, hdirty⟩, hused'⟩, hfree⟩, hunused⟩, hlt⟩ := h
  obtain ⟨-, hkept, -, hmisfiled⟩ := reclassify_changes_free_only ⟨_, a₀, events, hcreate, hrun⟩
  obtain ⟨dirty, hclassify, hspec, -⟩ := hmisfiled 8 hlt hunused
  exact ⟨a, ⟨_, a₀, events, hcreate, hrun⟩, hfull, hkept 0 hused, hdirty, hkept 6 hused', hfree,
    dirty, hclassify, hspec.count⟩

/-- Classifying a free segment does change the area, and a checkpoint later in the run may take a
segment out of use that a log has open and that holds a live block. -/
theorem reclassify_not_idle :
    (¬∀ (a : Area) (seg : ℕ), a.Reachable → seg < a.geometry.segments →
      a.reclassify (some seg) = .ok a) ∧
    ¬∀ (a a₁ a₂ a₃ : Area) (seg n s : ℕ) (commands : List Command) (events : List Event),
      a.Reachable → a.reclassify (some seg) = .ok a₁ →
      Command.runAll a₁ commands = .ok (events, a₂) → a₂.checkpoint = .ok (n, a₃) →
      a₂.isUsed s = true → a₃.isUsed s = false →
      a₂.isOpen s = false ∧ (a₂.table.record s).live = 0 := by
  -- The third block of a log goes into the first free segment.
  obtain ⟨a₀, events, a, hcreate, hrun, h⟩ := Run.of_reaches { tinyLayout with segments := 8 } []
    (fun _ a => 6 < a.geometry.segments && (do
      let a₁ ← a.reclassify (some 6)
      let ran ← Command.runAll a₁ (List.replicate 3 (.allocate (some Log.hotData) 5))
      let released ← ran.2.checkpoint
      return a₁.dirty.count .prefree ≠ a.dirty.count .prefree && ran.2.isUsed 6 &&
        ran.2.isOpen 6 && !released.2.isUsed 6 : Guarded Bool) = .ok true) (by decide +kernel)
  have hreachable : a.Reachable := ⟨_, a₀, events, hcreate, hrun⟩
  rw [Bool.and_eq_true, decide_eq_true_eq, decide_eq_true_eq] at h
  obtain ⟨hlt, h⟩ := h
  obtain ⟨a₁, hreclassify, h⟩ := Guarded.bind_eq_ok.mp h
  obtain ⟨⟨events₁, a₂⟩, hruns, h⟩ := Guarded.bind_eq_ok.mp h
  obtain ⟨⟨n, a₃⟩, hcheckpoint, h⟩ := Guarded.bind_eq_ok.mp h
  have hfacts := Except.ok.inj h
  simp only [Bool.and_eq_true, decide_eq_true_eq, Bool.not_eq_true'] at hfacts
  obtain ⟨⟨⟨hcount, hused⟩, hopen⟩, hreleased⟩ := hfacts
  constructor
  · intro hall
    cases hreclassify.symm.trans (hall a 6 hreachable hlt)
    exact hcount rfl
  · intro hall
    obtain ⟨hclosed, -⟩ := hall a a₁ a₂ a₃ 6 n 6 _ events₁ hreachable hreclassify hruns
      hcheckpoint hused hreleased
    rw [hopen] at hclosed
    cases hclosed

end Reclaim.Area
