import Reclaim.Proofs.Area.Runs
import Reclaim.Proofs.Migration.Passes
import Reclaim.Proofs.Volume.Ledger
import Reclaim.Proofs.Volume.Writing

/-!
# The statistics account for every live block and every pass

Two laws of conservation hold of the counters of collection, if the filesystem leaves them alone.
Of a call that moves the live blocks of a segment, each block that was visited is counted once, as
moved, as stale or as released, unless its failure to be released or to be found shows in the
transcript; this is `Reckons.grown` and `length_sights`, read off the deeds. Of a sequence of passes
(`Turns`), those that were begun are those that ended well and those that failed, and the segments
are the summaries that were read. One call is counted by `Takes.passed`, and a sequence of them by
induction. `collection_accounts` states both.
-/

namespace Reclaim

variable {σ : Type}

/-! ## Passes in a row -/

/-- Whether a segment is the first of a section of the area. -/
def Geometry.Begins (g : Geometry) (seg : ℕ) : Prop :=
  seg < g.segments ∧ seg % g.segmentsPerSection = 0

/-- Whether a segment is the first of a section can be decided. -/
instance (g : Geometry) (seg : ℕ) : Decidable (g.Begins seg) :=
  inferInstanceAs (Decidable (_ ∧ _))

/-- A call that collects a section, with the queries that were made in it. -/
structure Turn where
  /-- The segment that the caller names. -/
  start : ℕ
  /-- For whom the caller collects. -/
  trigger : Trigger
  /-- Whether the segment is the first of a section. -/
  begins : Bool
  /-- The answer. -/
  answer : Outcome Unit
  /-- The queries. -/
  queries : List Exchange

namespace Backend

/-- A call is made in a world and leaves another. -/
structure Takes (b : Backend σ) (w : World σ) (c : Turn) (w' : World σ) : Prop where
  /-- The start is the first segment of a section at the time of the call, or it is not. -/
  begins : c.begins = decide (w.area.geometry.Begins c.start)
  /-- The call gives its answer. -/
  run : b.collectSection c.start c.trigger w = .ok (c.answer, w')
  /-- It makes its queries. -/
  noted : ∀ log, b.recorded.collectSection c.start c.trigger (w.recorded log) =
    .ok (c.answer, w'.recorded (log ++ c.queries))

/-- Calls are made one after the other. Between them anything may happen but counting. -/
inductive Turns (b : Backend σ) : World σ → List Turn → World σ → Prop
  /-- No call is made. -/
  | none (w : World σ) : Turns b w [] w
  /-- Others do something. -/
  | others {w w₁ w' : World σ} {cs : List Turn} (same : w₁.collector.tally = w.collector.tally)
      (rest : Turns b w₁ cs w') : Turns b w cs w'
  /-- A call is made. -/
  | call {w w₁ w' : World σ} {c : Turn} {cs : List Turn} (taken : b.Takes w c w₁)
      (rest : Turns b w₁ cs w') : Turns b w (c :: cs) w'

end Backend

/-- How many summaries were read in a list of queries. -/
def summariesRead (es : List Exchange) : ℕ :=
  es.countP fun
    | ⟨.summary _, r⟩ => r.isOk
    | _ => false

/-- The summaries that were read are those that a transcript finds. -/
theorem count_summary_findings (ds : List Deed) :
    (findings ds).count .summary = summariesRead (calls ds) := by
  have hquery : ∀ e : Exchange, (findings [.call e]).count .summary = summariesRead [e] := by
    rintro ⟨q, r⟩
    cases q <;> first | rfl | cases r <;> rfl
  induction ds with
  | nil => rfl
  | cons d ds ih =>
    rw [← List.singleton_append, findings_append, List.count_append, calls_append, summariesRead,
      List.countP_append, ih]
    cases d with
    | call e => rw [hquery]; rfl
    | raise page flag => cases flag <;> rfl

/-- How the counters of passes have grown over a sequence of calls. -/
structure Tally.Passed (cs : List Turn) (t t' : Tally) : Prop where
  /-- A call is counted if it begins at the first segment of a section. -/
  passes : t'.passes = t.passes + UInt64.ofNat (cs.countP (·.begins))
  /-- It is a section collected if it ends well. -/
  sections : t'.sectionsCollected =
    t.sectionsCollected + UInt64.ofNat (cs.countP fun c => c.begins && c.answer.isOk)
  /-- It is a failed pass if it does not. -/
  failed : t'.failedPasses =
    t.failedPasses + UInt64.ofNat (cs.countP fun c => c.begins && !c.answer.isOk)
  /-- A segment is counted for each summary that was read. -/
  segments : t'.segmentsScanned =
    t.segmentsScanned + UInt64.ofNat (cs.map fun c => summariesRead c.queries).sum

namespace Tally

variable {cs cs' : List Turn} {t t₁ t' : Tally}

/-- No call is counted. -/
theorem Passed.refl (t : Tally) : Passed [] t t :=
  ⟨eq_add_zero _, eq_add_zero _, eq_add_zero _, eq_add_zero _⟩

/-- A call that begins at no section counts nothing. -/
theorem Passed.refused {c : Turn} (t : Tally) (hbegins : c.begins = false)
    (hqueries : c.queries = []) : Passed [c] t t where
  passes := by
    rw [List.countP_singleton, hbegins]
    exact eq_add_zero _
  sections := by
    rw [List.countP_singleton, hbegins, Bool.false_and]
    exact eq_add_zero _
  failed := by
    rw [List.countP_singleton, hbegins, Bool.false_and]
    exact eq_add_zero _
  segments := by
    rw [List.map_singleton, hqueries]
    exact eq_add_zero _

/-- A call that begins at a section counts the summaries that it read, and then itself. -/
theorem Passed.single {c : Turn} {ds : List Deed} (hbegins : c.begins = true)
    (hqueries : c.queries = calls ds) (h : Scanned (findings ds) t t₁) :
    Passed [c] t (t₁.countPass c.answer.isOk 0) where
  passes := by
    rw [List.countP_singleton, hbegins]
    show t₁.passes + 1 = _
    rw [h.passes]
    rfl
  sections := by
    rw [List.countP_singleton, hbegins, Bool.true_and]
    show (if c.answer.isOk then t₁.sectionsCollected + 1 else t₁.sectionsCollected) = _
    rw [h.sections]
    split_ifs
    · rfl
    · exact eq_add_zero _
  failed := by
    rw [List.countP_singleton, hbegins, Bool.true_and]
    show (if c.answer.isOk then t₁.failedPasses else t₁.failedPasses + 1) = _
    rw [h.failed]
    cases c.answer.isOk
    · rfl
    · exact eq_add_zero _
  segments := by
    rw [List.map_singleton, List.sum_singleton, hqueries, ← count_summary_findings]
    exact h.segments

/-- Two sequences of calls add up. -/
theorem Passed.trans (h : Passed cs t t₁) (h' : Passed cs' t₁ t') : Passed (cs ++ cs') t t' where
  passes := by rw [h'.passes, h.passes, add_ofNat_add, List.countP_append]
  sections := by rw [h'.sections, h.sections, add_ofNat_add, List.countP_append]
  failed := by rw [h'.failed, h.failed, add_ofNat_add, List.countP_append]
  segments := by rw [h'.segments, h.segments, add_ofNat_add, List.map_append, List.sum_append]

/-- The passes that were begun are those that ended well and those that failed. -/
theorem Passed.passes_eq (h : Passed cs t t')
    (ht : t.passes = t.sectionsCollected + t.failedPasses) :
    t'.passes = t'.sectionsCollected + t'.failedPasses := by
  have hends : cs.countP (·.begins) = (cs.countP fun c => c.begins && c.answer.isOk) +
      cs.countP fun c => c.begins && !c.answer.isOk := by
    clear h
    induction cs with
    | nil => rfl
    | cons c cs ih =>
      rw [List.countP_cons, List.countP_cons, List.countP_cons, ih]
      cases c.begins <;> cases c.answer.isOk <;> simp <;> omega
  rw [h.passes, h.sections, h.failed, hends, UInt64.ofNat_add, ht]
  ac_rfl

end Tally

namespace Backend

variable {b : Backend σ} {w w' : World σ} {c : Turn} {cs : List Turn}

/-- A call that begins elsewhere is turned away, and nothing is done. -/
theorem collectSection_of_not_begins (b : Backend σ) {start : ℕ} (trigger : Trigger)
    (h : ¬w.area.geometry.Begins start) :
    b.collectSection start trigger w = .ok (.error .invalidArgument, w) := by
  have hrefused : w.area.geometry.segments ≤ start ∨
      start % w.area.geometry.segmentsPerSection ≠ 0 := by
    rw [← not_lt, ← not_and_or]
    exact h
  show (if w.area.geometry.segments ≤ start ∨ start % w.area.geometry.segmentsPerSection ≠ 0 then
    _ else _ : Act σ (Outcome Unit)) w = _
  rw [if_pos hrefused]
  rfl

/-- A call that gives an answer makes a turn. -/
theorem exists_takes {start : ℕ} {trigger : Trigger} {r : Outcome Unit}
    (h : b.collectSection start trigger w = .ok (r, w')) : ∃ queries,
      b.Takes w ⟨start, trigger, decide (w.area.geometry.Begins start), r, queries⟩ w' := by
  by_cases hbegins : w.area.geometry.Begins start
  · cases does_collectSection (b := b) trigger hbegins.1 hbegins.2 with
    | stops run _ =>
      rw [h] at run
      cases run
    | gives run noted _ _ =>
      rw [h] at run
      cases run
      exact ⟨_, rfl, h, noted⟩
  · rw [collectSection_of_not_begins b trigger hbegins] at h
    cases h
    refine ⟨[], rfl, collectSection_of_not_begins b trigger hbegins, fun log => ?_⟩
    rw [List.append_nil]
    exact collectSection_of_not_begins b.recorded trigger hbegins

/-- Calls that are made the same way make the same queries. -/
theorem Takes.queries_eq {es : List Exchange} (h : b.Takes w c w')
    (hnoted : b.recorded.collectSection c.start c.trigger (w.recorded []) =
      .ok (c.answer, w'.recorded es)) : c.queries = es := by
  have hworld := congrArg Prod.snd (Except.ok.inj ((h.noted []).symm.trans hnoted))
  exact congrArg (fun w : World (σ × List Exchange) => w.host.2) hworld

/-- A call is counted as one pass, or not at all. -/
theorem Takes.passed (h : b.Takes w c w') (hb : b.LeavesTally) :
    Tally.Passed [c] w.collector.tally w'.collector.tally := by
  have hbegins := h.begins
  by_cases hstart : w.area.geometry.Begins c.start
  · rw [decide_eq_true hstart] at hbegins
    cases reads_collectSection (b := b) c.trigger hstart.1 hstart.2 with
    | stops run _ =>
      rw [h.run] at run
      cases run
    | @gives ds r w'' run noted _ after =>
      obtain ⟨rfl, rfl⟩ := Prod.mk.inj (Except.ok.inj (h.run.symm.trans run))
      obtain ⟨ss, w₁, -, -, htally, -, hreads⟩ := after
      rw [htally]
      exact .single hbegins (h.queries_eq (noted [])) (hreads hb)
  · rw [decide_eq_false hstart] at hbegins
    have hrun := h.run
    rw [collectSection_of_not_begins b c.trigger hstart] at hrun
    obtain ⟨hanswer, rfl⟩ := Prod.mk.inj (Except.ok.inj hrun)
    refine .refused _ hbegins (h.queries_eq ?_)
    rw [← hanswer]
    exact collectSection_of_not_begins b.recorded c.trigger hstart

/-- Calls in a row are counted one by one. -/
theorem Turns.passed (h : b.Turns w cs w') (hb : b.LeavesTally) :
    Tally.Passed cs w.collector.tally w'.collector.tally := by
  induction h with
  | none w => exact .refl _
  | others same _ ih =>
    rw [← same]
    exact ih
  | call taken _ ih => exact (taken.passed hb).trans ih

/-- Every live block and every pass is accounted for, if the filesystem leaves the counters alone.

A call that moves the live blocks of a segment visits some of them, at each entry where the walk
finds the block live, and however it ends one thing at most is found about each. The blocks are as
many as the entries that were stale, about which nothing was found, the pages that were marked to be
moved, and in a data segment the orphaned blocks that were released, those that could not be
released and the pages that could not be had. The counters have grown by these numbers.

Over calls in a row, the passes have grown by the calls that begin at the first segment of a
section, each as one that ended well or as one that failed; other calls do nothing. The segments
have grown by the summaries that were read. -/
theorem collection_accounts (b : Backend σ) (hb : b.LeavesTally) :
    (∀ (kind : BlockKind) (sum : SummaryBlock) (seg : ℕ) (trigger : Trigger) (w : World σ),
      match b.collectLive kind sum seg trigger w with
      | .ok (r, w') => ∃ (ss : List (Sight σ)) (hs : List Deed),
          (∀ log, b.recorded.collectLive kind sum seg trigger (w.recorded log) =
            .ok (r, w'.recorded (log ++ calls (deedsAt ss ++ hs)))) ∧
          b.Collects kind sum seg trigger w ss hs r w' ∧
          (∀ s ∈ ss, (findings s.deeds).length ≤ 1) ∧
          ss.length = staleAmong ss + (findings (deedsAt ss)).count .moved +
            unmoved kind (findings (deedsAt ss)) ∧
          Tally.Grown kind (findings (deedsAt ss)) (staleAmong ss) w.collector.tally
            w'.collector.tally
      | .error t => b.Stops trigger [seg] (b.Meets trigger seg w) w t) ∧
    (∀ (w w' : World σ) (cs : List Turn), b.Turns w cs w' →
      Tally.Passed cs w.collector.tally w'.collector.tally ∧
      (w.collector.tally.passes =
          w.collector.tally.sectionsCollected + w.collector.tally.failedPasses →
        w'.collector.tally.passes =
          w'.collector.tally.sectionsCollected + w'.collector.tally.failedPasses)) ∧
    (∀ (start : ℕ) (trigger : Trigger) (w w' : World σ) (r : Outcome Unit),
      b.collectSection start trigger w = .ok (r, w') → ∃ queries,
        b.Takes w ⟨start, trigger, decide (w.area.geometry.Begins start), r, queries⟩ w') ∧
    ∀ (start : ℕ) (trigger : Trigger) (w : World σ), ¬w.area.geometry.Begins start →
      b.collectSection start trigger w = .ok (.error .invalidArgument, w) := by
  refine ⟨fun kind sum seg trigger w => ?_, fun w w' cs hturns => ?_,
    fun _ _ _ _ _ => exists_takes, fun _ trigger _ => collectSection_of_not_begins b trigger⟩
  · cases reckons_collectLive (b := b) kind sum (List.mem_singleton_self seg) (fun _ => id)
      fun _ => rfl with
    | stops run stuck =>
      rw [run]
      exact stuck
    | gives run noted _ after =>
      obtain ⟨ss, hs, rfl, hcollects, hreckons⟩ := after
      rw [run]
      exact ⟨ss, hs, noted, hcollects, fun s hs => kind.length_le_one (hreckons.finds s hs),
        length_sights hreckons.finds, hreckons.grown hcollects.handover hb⟩
  · have hpassed := hturns.passed hb
    exact ⟨hpassed, hpassed.passes_eq⟩

end Backend

namespace Volume

variable {ι ρ : Type}

/-- The steps of the volume count nothing. -/
theorem steady_tally (t : Tally) : Steady fun w : World (Volume ι ρ) => w.collector.tally = t where
  host _ _ hw := hw
  pages _ _ hw := hw
  append log := by
    refine (keeps_read _).bind fun clock => ?_
    intro w r w' hw h
    obtain ⟨area, -, rfl⟩ := Act.onArea_eq_ok.mp h
    exact hw
  release addr := by
    intro w r w' hw h
    obtain ⟨area, -, rfl⟩ := Act.onArea_eq_ok.mp h
    exact hw

/-- The volume leaves the counters alone if the actions of interruptions do. -/
theorem backend_leavesTally {handler : ι → Act (Volume ι ρ) ρ}
    (hhandler : ∀ t action, Act.Keeps (fun w => w.collector.tally = t) (handler action)) :
    (backend handler).LeavesTally := by
  intro q w r w' h
  have hkeeps := backend_preserves (hhandler w.collector.tally) (steady_tally w.collector.tally)
  cases q with
  | summary seg => exact hkeeps.summary seg rfl h
  | nodeInRange nid => exact hkeeps.nodeInRange nid rfl h
  | nodePage nid => exact hkeeps.nodePage nid rfl h
  | nodeInfo nid => exact hkeeps.nodeInfo nid rfl h
  | placeNode page => exact hkeeps.placeNode page rfl h
  | inode ino => exact hkeeps.inode ino rfl h
  | isLinked inode => exact hkeeps.isLinked inode rfl h
  | dataPage inode index => exact hkeeps.dataPage inode index rfl h
  | placeData inode page => exact hkeeps.placeData inode page rfl h
  | punch inode start stop evict => exact hkeeps.punch inode start stop evict rfl h
  | writeback batch => exact hkeeps.writeback batch rfl h
  | checkpointFailed => exact hkeeps.checkpointFailed rfl h
  | writeCheckpoint =>
    exact keeps_writeCheckpoint (hhandler w.collector.tally) (steady_tally w.collector.tally).host
      rfl h

/-- A world of a file of two blocks in segment 1, of which the second is refused a new one. Its
summary claims the first block only. -/
def twoBlocks (a : Area) : World (Volume Empty Unit) :=
  ⟨a, Collector.initial, ⟨[], 1⟩, { oneFile 72 66 with
    nodes := [(1, ⟨1, 72, 0, 0, #[66, 67], ⟨0, .node 1⟩⟩)]
    faults := [⟨"daddr", none, .ioError, 1, none⟩] }⟩

end Volume

namespace Backend

/-- With a summary of both blocks the second page is counted although it is refused a block. Of two
calls the first begins nowhere and the second fails, as one block is left, and one pass is
counted. -/
theorem collection_accounts_refused : ∃ (a : Area) (w₁ w₂ : World (Volume Empty Unit))
    (ss : List (Sight (Volume Empty Unit))) (hs : List Deed) (cs : List Turn),
    (Volume.backend Empty.elim).collectLive .data ⟨.data, #[⟨1, 0, 0⟩, ⟨1, 0, 1⟩]⟩ 1 .foreground
      (Volume.twoBlocks a) = .ok (.error .ioError, w₁) ∧
    (Volume.backend Empty.elim).Collects .data ⟨.data, #[⟨1, 0, 0⟩, ⟨1, 0, 1⟩]⟩ 1 .foreground
      (Volume.twoBlocks a) ss hs (.error .ioError) w₁ ∧
    ss.length = staleAmong ss + (findings (deedsAt ss)).count .moved +
      unmoved .data (findings (deedsAt ss)) ∧
    UInt64.ofNat ((findings (deedsAt ss)).count .moved) = 2 ∧
    cs.map (fun c => (c.start, c.answer)) =
      [(100, .error .invalidArgument), (1, .error .badState)] ∧
    (Volume.backend Empty.elim).Turns (Volume.twoBlocks a) cs w₂ ∧
    w₂.collector.tally.passes = 1 ∧ w₂.collector.tally.failedPasses = 1 ∧
      w₂.collector.tally.sectionsCollected = 0 := by
  have hb : (Volume.backend (ι := Empty) (ρ := Unit) Empty.elim).LeavesTally :=
    Volume.backend_leavesTally fun _ action => action.elim
  obtain ⟨-, -, a, -, -, h⟩ := Area.Run.of_reaches Area.tinyLayout
    [.allocate (some Log.warmData) 0, .allocate (some Log.warmData) 0,
      .allocate (some Log.warmNode) 0]
    (fun _ a =>
      ((Volume.backend Empty.elim).collectLive .data ⟨.data, #[⟨1, 0, 0⟩, ⟨1, 0, 1⟩]⟩ 1 .foreground
        (Volume.twoBlocks a)).toOption.map (fun x => (x.1, x.2.collector.tally.dataMigrated)) =
          some (.error .ioError, 2) &&
      ((Volume.backend Empty.elim).collectSection 1 .foreground
        (Volume.twoBlocks a)).toOption.map (·.1) = some (.error .badState) &&
      a.geometry.Begins 1 && !decide (a.geometry.Begins 100))
    (by decide +kernel)
  simp only [Bool.and_eq_true, decide_eq_true_eq, Bool.not_eq_true', decide_eq_false_iff_not] at h
  obtain ⟨⟨⟨hlive, hsection⟩, hone⟩, hhundred⟩ := h
  have hbegins : (Volume.twoBlocks a).area.geometry.Begins 1 := hone
  have helsewhere : ¬(Volume.twoBlocks a).area.geometry.Begins 100 := hhundred
  obtain ⟨⟨r₁, w₁⟩, hwalk, hvalues⟩ := Option.map_eq_some_iff.mp hlive
  obtain ⟨⟨r₂, w₂⟩, hpass, hfails⟩ := Option.map_eq_some_iff.mp hsection
  obtain ⟨rfl, hdata⟩ := Prod.mk.inj hvalues
  obtain rfl : r₂ = .error .badState := hfails
  have hwalk := Guarded.eq_ok_of_toOption hwalk
  have hpass := Guarded.eq_ok_of_toOption hpass
  obtain ⟨hwalks, hturns, htakes, -⟩ := collection_accounts _ hb
  -- The walk, and the counters it leaves.
  have haccount := hwalks .data ⟨.data, #[⟨1, 0, 0⟩, ⟨1, 0, 1⟩]⟩ 1 .foreground (Volume.twoBlocks a)
  rw [hwalk] at haccount
  obtain ⟨ss, hs, -, hcollects, -, hlength, hgrown⟩ := haccount
  have hmoved : w₁.collector.tally.dataMigrated =
      0 + UInt64.ofNat ((findings (deedsAt ss)).count .moved) := hgrown.moved
  rw [hdata, UInt64.zero_add] at hmoved
  -- The calls, the second from the world that the first leaves as it is.
  have hnowhere := collectSection_of_not_begins (Volume.backend Empty.elim) .foreground helsewhere
  obtain ⟨queries, hfirst⟩ := htakes _ _ _ _ _ hnowhere
  obtain ⟨queries', hsecond⟩ := htakes _ _ _ _ _ hpass
  rw [decide_eq_false helsewhere] at hfirst
  rw [decide_eq_true hbegins] at hsecond
  have hcalls := Turns.call hfirst (.call hsecond (.none w₂))
  obtain ⟨hpassed, -⟩ := hturns _ _ _ hcalls
  exact ⟨a, w₁, w₂, ss, hs, _, hwalk, hcollects, hlength, hmoved.symm, rfl, hcalls,
    hpassed.passes, hpassed.failed, hpassed.sections⟩

end Backend

end Reclaim
