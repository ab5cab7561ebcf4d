import Reclaim.Proofs.Migration.Tally

/-!
# What a pass does

A pass reads the summary of one segment after the other and moves the live blocks of each, up to the
first that fails. `Scans` is the transcript of one segment and `Passes` that of a list of them, with
the sights of all of their walks. The rules say as well what is counted: `reads_collectSection` for
a pass over a section, and `does_collectSection` without the counters.
-/

namespace Reclaim

open Act

variable {σ : Type}

/-- What a pass does with a segment that holds live blocks. -/
inductive Scans (b : Backend σ) (trigger : Trigger) (seg : ℕ) (w : World σ) :
    List Deed → List (Sight σ) → Outcome Unit → World σ → Prop
  /-- The summary cannot be read. -/
  | unread {status : Status} {w' : World σ}
      (run : b.ask (.summary seg) w = .ok (.error status, w')) :
      Scans b trigger seg w [.call ⟨.summary seg, .error status⟩] [] (.error status) w'
  /-- The summary is read, a segment is counted, and its live blocks are moved. -/
  | read {sum : SummaryBlock} {kind : BlockKind} {ss : List (Sight σ)} {hs : List Deed}
      {r : Outcome Unit} {w₁ w₂ w' : World σ} (run : b.ask (.summary seg) w = .ok (.ok sum, w₁))
      (area : w₂.area = w₁.area) (host : w₂.host = w₁.host)
      (collects : b.Collects kind sum seg trigger w₂ ss hs r w') :
      Scans b trigger seg w (.call ⟨.summary seg, .ok sum⟩ :: (deedsAt ss ++ hs)) ss r w'

/-- What a pass does with a list of segments. -/
inductive Passes (b : Backend σ) (trigger : Trigger) :
    List ℕ → World σ → List Deed → List (Sight σ) → Outcome Unit → World σ → Prop
  /-- All segments have been passed. -/
  | done (w : World σ) : Passes b trigger [] w [] [] (.ok ()) w
  /-- A segment without a live block is left out. -/
  | empty {seg : ℕ} {segs : List ℕ} {w w' : World σ} {ds : List Deed} {ss : List (Sight σ)}
      {r : Outcome Unit} (dead : w.area.liveBlocks seg false = .ok 0)
      (rest : Passes b trigger segs w ds ss r w') : Passes b trigger (seg :: segs) w ds ss r w'
  /-- A segment fails, and the pass ends. -/
  | failed {seg : ℕ} {segs : List ℕ} {w w' : World σ} {ds : List Deed} {ss : List (Sight σ)}
      {status : Status} (scan : Scans b trigger seg w ds ss (.error status) w') :
      Passes b trigger (seg :: segs) w ds ss (.error status) w'
  /-- A segment is done, and the pass goes on. -/
  | scanned {seg : ℕ} {segs : List ℕ} {w w₁ w' : World σ} {ds ds' : List Deed}
      {ss ss' : List (Sight σ)} {r : Outcome Unit} (scan : Scans b trigger seg w ds ss (.ok ()) w₁)
      (rest : Passes b trigger segs w₁ ds' ss' r w') :
      Passes b trigger (seg :: segs) w (ds ++ ds') (ss ++ ss') r w'

namespace Backend

variable {b : Backend σ} {trigger : Trigger} {segs : List ℕ} {blocks : Address → Prop}

/-- What a pass does with a segment that holds live blocks. -/
theorem does_collectSegment {seg : ℕ} (hseg : seg ∈ segs) {w : World σ}
    (hblocks : ∀ addr, b.Ranges trigger [seg] w addr → blocks addr) :
    Does b trigger segs blocks (b.recorded.collectSegment trigger seg)
      (b.collectSegment trigger seg) w
      fun ds r w' => (∃ ss, Scans b trigger seg w ds ss r w') ∧ b.Reads w ds w' := by
  unfold collectSegment
  refine does_ask_bind (.summary seg) trivial fun answer w₁ hrun => ?_
  have hasked : b.LeavesTally → w₁.collector.tally = w.collector.tally :=
    fun hb => hb _ _ _ _ hrun
  cases answer with
  | error status =>
    refine does_pure ⟨⟨[], .unread hrun⟩, fun hb => ?_⟩
    rw [hasked hb]
    exact .refl _
  | ok sum =>
    refine does_count_bind fun w₂ hwent harea hhost htally => ?_
    have hmet : ∀ addr, b.Meets trigger seg w₂ addr → blocks addr := fun addr hmeets =>
      hblocks addr ⟨seg, List.mem_singleton_self seg, _, w₂,
        .call (q := .summary seg) trivial hrun hwent, hmeets⟩
    -- The segment is counted before its live blocks are moved.
    have hmoved : ∀ {kind ss hs r w'}, b.Collects kind sum seg trigger w₂ ss hs r w' →
        b.Reckons kind w₂.collector.tally ss hs w' →
        b.Reads w (.call ⟨.summary seg, .ok sum⟩ :: (deedsAt ss ++ hs)) w' := by
      intro kind ss hs r w' hcollects hreckons hb
      have hscanned : Tally.Scanned [.summary] w.collector.tally w₂.collector.tally := by
        rw [htally, hasked hb]
        exact ⟨rfl, rfl, rfl, rfl⟩
      have hgrown := hreckons.grown hcollects.handover hb
      rw [findings_cons, findings_append, hcollects.handover.findings, List.append_nil]
      exact hscanned.trans hgrown.toScanned
    refine does_askArea_bind (fun t htrap => .table (.refl w₂) hseg htrap) fun segment _ => ?_
    split_ifs
    · refine (reckons_collectLive .node sum hseg hmet fun _ => rfl).mono ?_
      rintro _ r w' - ⟨ss, hs, rfl, hcollects, hreckons⟩
      exact ⟨⟨ss, .read hrun harea hhost hcollects⟩, hmoved hcollects hreckons⟩
    · refine (reckons_collectLive .data sum hseg hmet fun _ => rfl).mono ?_
      rintro _ r w' - ⟨ss, hs, rfl, hcollects, hreckons⟩
      exact ⟨⟨ss, .read hrun harea hhost hcollects⟩, hmoved hcollects hreckons⟩

/-- What a pass does with a list of segments. -/
theorem does_collectSegments : ∀ {listed : List ℕ} {w : World σ}, (∀ seg ∈ listed, seg ∈ segs) →
    (∀ addr, b.Ranges trigger listed w addr → blocks addr) →
    Does b trigger segs blocks (b.recorded.collectSegments trigger listed)
      (b.collectSegments trigger listed) w
      fun ds r w' => (∃ ss, Passes b trigger listed w ds ss r w') ∧ b.Reads w ds w'
  | [], w, _, _ => does_pure ⟨⟨[], .done w⟩, .refl b w⟩
  | seg :: listed, w, hlisted, hblocks => by
    have hseg := hlisted seg List.mem_cons_self
    have hrest := fun s hs => hlisted s (List.mem_cons_of_mem _ hs)
    have hblocksRest : ∀ addr, b.Ranges trigger listed w addr → blocks addr := fun addr h =>
      hblocks addr (h.mono fun _ => List.mem_cons_of_mem _)
    unfold collectSegments
    refine does_askArea_bind (fun t htrap => .table (.refl w) hseg (Area.get_of_liveBlocks htrap))
      fun live hlive => ?_
    split_ifs with hdead
    · subst hdead
      refine (does_collectSegments hrest hblocksRest).mono ?_
      rintro ds r w' - ⟨⟨ss, hpasses⟩, hreads⟩
      exact ⟨⟨ss, .empty hlive hpasses⟩, hreads⟩
    · refine (does_collectSegment hseg fun addr h => hblocks addr (h.mono ?_)).bind ?_
      · simp
      rintro ds r w₁ hwent ⟨⟨ss, hscan⟩, hreads⟩
      cases r with
      | error status =>
        refine does_pure ?_
        rw [List.append_nil]
        exact ⟨⟨ss, .failed hscan⟩, hreads⟩
      | ok _ =>
        refine (does_collectSegments hrest fun addr h => hblocksRest addr (h.after hwent)).mono ?_
        rintro ds' r w' - ⟨⟨ss', hpasses⟩, hreads'⟩
        exact ⟨⟨ss ++ ss', .scanned hscan hpasses⟩, hreads.trans hreads'⟩

/-- What a pass over a section of the area does, and what it counts. -/
theorem reads_collectSection (trigger : Trigger) {start : ℕ} {w : World σ}
    (hlt : start < w.area.geometry.segments)
    (haligned : start % w.area.geometry.segmentsPerSection = 0) :
    Does b trigger (List.range' start w.area.geometry.segmentsPerSection)
      (b.Ranges trigger (List.range' start w.area.geometry.segmentsPerSection) w)
      (b.recorded.collectSection start trigger) (b.collectSection start trigger) w
      fun ds r w' => ∃ ss w₁, w'.area = w₁.area ∧ w'.host = w₁.host ∧
        w'.collector.tally = w₁.collector.tally.countPass r.isOk 0 ∧
        Passes b trigger (List.range' start w.area.geometry.segmentsPerSection) w ds ss r w₁ ∧
        b.Reads w ds w₁ := by
  have hallowed : ¬(w.area.geometry.segments ≤ start ∨
      start % w.area.geometry.segmentsPerSection ≠ 0) := by
    rw [not_or, Nat.not_le, not_not]
    exact ⟨hlt, haligned⟩
  unfold collectSection
  refine does_readArea_bind ?_
  rw [if_neg hallowed, if_neg hallowed]
  refine (does_collectSegments (fun _ => id) fun _ => id).bind ?_
  rintro ds r w₁ - ⟨⟨ss, hpasses⟩, hreads⟩
  refine does_count_bind fun w' _ harea hhost htally =>
    does_pure ⟨ss, w₁, harea, hhost, htally, ?_, ?_⟩
  · rwa [List.append_nil]
  · rwa [List.append_nil]

/-- What a pass over a section of the area does. -/
theorem does_collectSection (trigger : Trigger) {start : ℕ} {w : World σ}
    (hlt : start < w.area.geometry.segments)
    (haligned : start % w.area.geometry.segmentsPerSection = 0) :
    Does b trigger (List.range' start w.area.geometry.segmentsPerSection)
      (b.Ranges trigger (List.range' start w.area.geometry.segmentsPerSection) w)
      (b.recorded.collectSection start trigger) (b.collectSection start trigger) w
      fun ds r w' => ∃ ss w₁, w'.area = w₁.area ∧ w'.host = w₁.host ∧
        Passes b trigger (List.range' start w.area.geometry.segmentsPerSection) w ds ss r w₁ := by
  refine (reads_collectSection trigger hlt haligned).mono ?_
  rintro ds r w' - ⟨ss, w₁, harea, hhost, -, hpasses, -⟩
  exact ⟨ss, w₁, harea, hhost, hpasses⟩

end Backend

end Reclaim
