import Reclaim.Proofs.Migration.Sights

/-!
# What the counters make of a walk

Each visit of a walk moves one counter at most, and what it finds tells which (`Tally.countVisit`).
Added up over the sights of a walk, this says how far every counter has grown (`Reckons.grown`), and
that there are as many sights as things found and stale entries together (`length_sights`). The
counters of passes stay where they are until a pass ends (`Backend.Reads`).
-/

namespace Reclaim

variable {σ : Type} {kind : BlockKind} {t t₁ t' : Tally} {fs fs' : List Finding}

/-- A visit finds one thing at most. -/
theorem BlockKind.length_le_one (kind : BlockKind) (h : fs ∈ kind.mayFind) : fs.length ≤ 1 := by
  have hone : ∀ fs ∈ kind.mayFind, fs.length ≤ 1 := by cases kind <;> decide
  exact hone fs h

/-- A handover tells nothing of a block. -/
theorem HandsOver.findings {pages : List Page} {hs : List Deed} (h : HandsOver pages hs) :
    findings hs = [] := by
  cases h <;> rfl

/-- The stale entries among a list of sights: those about which nothing was found. -/
def staleAmong (ss : List (Sight σ)) : ℕ := ss.countP fun s => (findings s.deeds).isEmpty

namespace Tally

/-- The blocks of a kind that were marked to be moved. -/
def movedOf (t : Tally) : BlockKind → UInt64
  | .node => t.nodesMigrated
  | .data => t.dataMigrated

/-- How far the counter of segments has grown while no pass ended. -/
structure Scanned (fs : List Finding) (t t' : Tally) : Prop where
  /-- The summaries that were read are counted. -/
  segments : t'.segmentsScanned = t.segmentsScanned + UInt64.ofNat (fs.count .summary)
  /-- No pass is counted. -/
  passes : t'.passes = t.passes
  /-- No failed pass is counted. -/
  failed : t'.failedPasses = t.failedPasses
  /-- No section is counted. -/
  sections : t'.sectionsCollected = t.sectionsCollected

/-- How far the counters have grown by what was found of blocks of a kind and by a number of stale
entries. -/
structure Grown (kind : BlockKind) (fs : List Finding) (stale : ℕ) (t t' : Tally) : Prop extends
    Scanned fs t t' where
  /-- The blocks that were marked to be moved are counted. -/
  moved : t'.movedOf kind = t.movedOf kind + UInt64.ofNat (fs.count .moved)
  /-- No block of the other kind is counted. -/
  others : ∀ k, k ≠ kind → t'.movedOf k = t.movedOf k
  /-- The stale entries are counted. -/
  stale : t'.staleEntries = t.staleEntries + UInt64.ofNat stale
  /-- The blocks of orphans that were released are counted. -/
  orphans : t'.orphanHoles = t.orphanHoles + UInt64.ofNat (fs.count .released)

/-- A word that does not grow has grown by nothing. -/
theorem eq_add_zero (a : UInt64) : a = a + UInt64.ofNat 0 := (UInt64.add_zero a).symm

/-- A word grows by two numbers as by their sum. -/
theorem add_ofNat_add (a : UInt64) (m n : ℕ) :
    a + UInt64.ofNat m + UInt64.ofNat n = a + UInt64.ofNat (m + n) := by
  rw [UInt64.add_assoc, ← UInt64.ofNat_add]

/-- Nothing was read. -/
theorem Scanned.refl (t : Tally) : Scanned [] t t := ⟨eq_add_zero _, rfl, rfl, rfl⟩

/-- The segments read one after the other add up. -/
theorem Scanned.trans (h : Scanned fs t t₁) (h' : Scanned fs' t₁ t') :
    Scanned (fs ++ fs') t t' where
  segments := by rw [h'.segments, h.segments, add_ofNat_add, List.count_append]
  passes := h'.passes.trans h.passes
  failed := h'.failed.trans h.failed
  sections := h'.sections.trans h.sections

/-- Nothing has grown. -/
theorem Grown.refl (kind : BlockKind) (t : Tally) : Grown kind [] 0 t t where
  toScanned := .refl t
  moved := eq_add_zero _
  others _ _ := rfl
  stale := eq_add_zero _
  orphans := eq_add_zero _

/-- Growth adds up. -/
theorem Grown.trans {m n : ℕ} (h : Grown kind fs m t t₁) (h' : Grown kind fs' n t₁ t') :
    Grown kind (fs ++ fs') (m + n) t t' where
  toScanned := h.toScanned.trans h'.toScanned
  moved := by rw [h'.moved, h.moved, add_ofNat_add, List.count_append]
  others k hk := (h'.others k hk).trans (h.others k hk)
  stale := by rw [h'.stale, h.stale, add_ofNat_add]
  orphans := by rw [h'.orphans, h.orphans, add_ofNat_add, List.count_append]

/-- A finding is counted once. -/
theorem grown_countFinding (t : Tally) (f : Finding) :
    Grown kind [f] 0 t (t.countFinding kind f) := by
  cases f with
  | summary =>
    refine ⟨⟨rfl, rfl, rfl, rfl⟩, eq_add_zero _, fun k _ => ?_, eq_add_zero _, eq_add_zero _⟩
    cases k <;> rfl
  | moved =>
    have hothers : ∀ k, k ≠ kind → (t.countFinding kind .moved).movedOf k = t.movedOf k := by
      intro k hk
      cases k <;> cases kind <;> first | rfl | exact absurd rfl hk
    cases kind
    · exact ⟨⟨eq_add_zero _, rfl, rfl, rfl⟩, rfl, hothers, eq_add_zero _, eq_add_zero _⟩
    · exact ⟨⟨eq_add_zero _, rfl, rfl, rfl⟩, rfl, hothers, eq_add_zero _, eq_add_zero _⟩
  | released =>
    refine ⟨⟨eq_add_zero _, rfl, rfl, rfl⟩, eq_add_zero _, fun k _ => ?_, eq_add_zero _, rfl⟩
    cases k <;> rfl
  | unreleased | pageless =>
    exact ⟨⟨eq_add_zero _, rfl, rfl, rfl⟩, eq_add_zero _, fun _ _ => rfl, eq_add_zero _,
      eq_add_zero _⟩

/-- A stale entry is counted once. -/
theorem grown_countStale (t : Tally) : Grown kind [] 1 t t.countStale := by
  refine ⟨⟨eq_add_zero _, rfl, rfl, rfl⟩, eq_add_zero _, fun k _ => ?_, rfl, eq_add_zero _⟩
  cases k <;> rfl

/-- A visit that finds nothing counts a stale entry, and one that finds something counts that. -/
theorem grown_countVisit (t : Tally) (h : fs ∈ kind.mayFind) :
    Grown kind fs (if fs.isEmpty then 1 else 0) t (t.countVisit kind fs) := by
  match fs, kind.length_le_one h with
  | [], _ => exact grown_countStale t
  | [f], _ => exact grown_countFinding t f

/-- The visits of a list of sights count what they find, and the stale entries. -/
theorem grown_countSights {ss : List (Sight σ)} (t : Tally)
    (h : ∀ s ∈ ss, findings s.deeds ∈ kind.mayFind) :
    Grown kind (findings (deedsAt ss)) (staleAmong ss) t (t.countSights kind ss) := by
  induction ss generalizing t with
  | nil => exact .refl kind t
  | cons s ss ih =>
    obtain ⟨hs, hss⟩ := List.forall_mem_cons.mp h
    rw [deedsAt_cons, findings_append, staleAmong, List.countP_cons, add_comm]
    exact (grown_countVisit t hs).trans (ih _ hss)

/-- A handover counts none of this. -/
theorem grown_countHanded {pages : List Page} {hs : List Deed} (t : Tally)
    (h : HandsOver pages hs) : Grown kind [] 0 t (t.countHanded hs) := by
  cases h with
  | nothing => exact .refl kind t
  | batch _ accepted =>
    have hmoved : ∀ k, (t.countWriteback accepted).movedOf k = t.movedOf k := by
      intro k
      cases k <;> rfl
    exact ⟨⟨eq_add_zero _, rfl, rfl, rfl⟩, (hmoved kind).trans (eq_add_zero _),
      fun k _ => hmoved k, eq_add_zero _, eq_add_zero _⟩

end Tally

/-- How many findings tell of blocks of a kind that are neither stale nor marked to be moved: in a
data segment those of orphans, be they released or not, and those whose page cannot be had. -/
def unmoved : BlockKind → List Finding → ℕ
  | .node, _ => 0
  | .data, fs => fs.count .released + fs.count .unreleased + fs.count .pageless

/-- There are as many sights as stale entries, marked pages and blocks that were not moved. -/
theorem length_sights {ss : List (Sight σ)} (h : ∀ s ∈ ss, findings s.deeds ∈ kind.mayFind) :
    ss.length = staleAmong ss + (findings (deedsAt ss)).count .moved +
      unmoved kind (findings (deedsAt ss)) := by
  have hone : ∀ fs ∈ kind.mayFind,
      1 = (if fs.isEmpty then 1 else 0) + fs.count .moved + unmoved kind fs := by
    cases kind <;> decide
  have hadd : ∀ fs fs', unmoved kind (fs ++ fs') = unmoved kind fs + unmoved kind fs' := by
    intro fs fs'
    cases kind with
    | node => rfl
    | data =>
      simp only [unmoved, List.count_append]
      omega
  induction ss with
  | nil => cases kind <;> rfl
  | cons s ss ih =>
    obtain ⟨hs, hss⟩ := List.forall_mem_cons.mp h
    have hfirst := hone _ hs
    have hrest := ih hss
    have hstale : staleAmong (s :: ss) =
        staleAmong ss + if (findings s.deeds).isEmpty then 1 else 0 := List.countP_cons
    rw [List.length_cons, deedsAt_cons, findings_append, List.count_append, hadd, hstale]
    omega

namespace Backend

variable {b : Backend σ} {ss : List (Sight σ)} {hs ds ds' : List Deed} {w w₁ w' : World σ}

/-- How far the counters have grown at the end of a walk. -/
theorem Reckons.grown {pages : List Page} (h : b.Reckons kind t ss hs w)
    (hover : HandsOver pages hs) (hb : b.LeavesTally) :
    Tally.Grown kind (findings (deedsAt ss)) (staleAmong ss) t w.collector.tally := by
  rw [h.stands hb, ← List.append_nil (findings (deedsAt ss))]
  exact (Tally.grown_countSights t h.finds).trans (Tally.grown_countHanded _ hover)

/-- What a transcript does to the counters of passes and of summaries, if the filesystem leaves them
alone. -/
def Reads (b : Backend σ) (w : World σ) (ds : List Deed) (w' : World σ) : Prop :=
  b.LeavesTally → Tally.Scanned (findings ds) w.collector.tally w'.collector.tally

/-- Nothing was done. -/
theorem Reads.refl (b : Backend σ) (w : World σ) : b.Reads w [] w := fun _ => .refl _

/-- Two transcripts in a row read what either reads. -/
theorem Reads.trans (h : b.Reads w ds w₁) (h' : b.Reads w₁ ds' w') : b.Reads w (ds ++ ds') w' := by
  intro hb
  rw [findings_append]
  exact (h hb).trans (h' hb)

end Backend

end Reclaim
