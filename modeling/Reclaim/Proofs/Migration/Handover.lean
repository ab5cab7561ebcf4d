import Reclaim.Proofs.Area.Runs
import Reclaim.Proofs.Migration.Sights
import Reclaim.Proofs.Volume.Ledger

/-!
# No page is lost on the way to the writer

A foreground call that moves the live blocks of a segment owes the writer every page that it had
placed, and no other. `collectLive_hands_over` accounts for them on every way out of the call. Each
visit is tidy (`Tidy`): it places one page at most and puts it under writeback right after, and a
refusal is the last thing that happens in it. A walk goes on after visits that place their page or
pass, so what its batch holds at the end is what has been placed so far, in the order of the blocks
(`Walks.accounts`).
-/

namespace Reclaim

variable {σ : Type}

/-! ## Pages in a transcript -/

/-- The pages that were given a block, in order. -/
def granted (ds : List Deed) : List Page :=
  ds.filterMap fun
    | .call ⟨.placeNode page, .ok _⟩ => some page
    | .call ⟨.placeData _ page, .ok _⟩ => some page
    | _ => none

/-- The reasons for which pages were given no block, in order. -/
def refusals (ds : List Deed) : List Status :=
  ds.filterMap fun
    | .call ⟨.placeNode _, .error status⟩ => some status
    | .call ⟨.placeData _ _, .error status⟩ => some status
    | _ => none

/-- The pages that were put under writeback, in order. -/
def shelved (ds : List Deed) : List Page :=
  ds.filterMap fun
    | .raise page .writeback => some page
    | _ => none

/-- The batches that were handed to the writer, in order. -/
def handed (ds : List Deed) : List (List Page) :=
  ds.filterMap fun
    | .call ⟨.writeback pages, _⟩ => some pages
    | _ => none

/-- Pages are granted in the first part of a transcript or in the second. -/
@[simp]
theorem granted_append (ds ds' : List Deed) : granted (ds ++ ds') = granted ds ++ granted ds' :=
  List.filterMap_append

/-- Pages are refused in the first part of a transcript or in the second. -/
@[simp]
theorem refusals_append (ds ds' : List Deed) :
    refusals (ds ++ ds') = refusals ds ++ refusals ds' :=
  List.filterMap_append

/-- Pages are put under writeback in the first part of a transcript or in the second. -/
@[simp]
theorem shelved_append (ds ds' : List Deed) : shelved (ds ++ ds') = shelved ds ++ shelved ds' :=
  List.filterMap_append

/-- Batches are handed over in the first part of a transcript or in the second. -/
@[simp]
theorem handed_append (ds ds' : List Deed) : handed (ds ++ ds') = handed ds ++ handed ds' :=
  List.filterMap_append

/-- A transcript in which no page is placed, put under writeback or handed over. -/
structure Idle (ds : List Deed) : Prop where
  /-- No page is given a block. -/
  granted : granted ds = []
  /-- No page is refused one. -/
  refusals : refusals ds = []
  /-- No page is put under writeback. -/
  shelved : shelved ds = []
  /-- No batch is handed over. -/
  handed : handed ds = []

/-- Two idle transcripts in a row make one. -/
theorem Idle.append {ds ds' : List Deed} (h : Idle ds) (h' : Idle ds') : Idle (ds ++ ds') := by
  constructor <;> simp [h.granted, h.refusals, h.shelved, h.handed, h'.granted, h'.refusals,
    h'.shelved, h'.handed]

/-- Lookups are idle. -/
theorem OnlyLooks.idle {ds : List Deed} (h : OnlyLooks ds) : Idle ds := by
  induction ds with
  | nil => exact ⟨rfl, rfl, rfl, rfl⟩
  | cons d ds ih =>
    have hrest := ih fun d' hd' => h d' (List.mem_cons_of_mem _ hd')
    obtain ⟨⟨q, r⟩, rfl, hq⟩ := h d List.mem_cons_self
    have hfirst : Idle [.call ⟨q, r⟩] := by
      cases q <;> first | exact ⟨rfl, rfl, rfl, rfl⟩ | exact hq.elim
    exact hfirst.append hrest

/-! ## Tidy visits -/

/-- Whether a transcript refuses a page a block: it does not, or it does as the last thing, for the
reason that an answer passes on. -/
inductive RefusesLast (ds : List Deed) (r : Outcome Unit) : Prop
  /-- Every page that is placed gets a block. -/
  | never (h : refusals ds = [])
  /-- The last page that is placed gets none. -/
  | last (front : List Deed) (d : Deed) (status : Status) (split : ds = front ++ [d])
      (before : refusals front = []) (refused : refusals [d] = [status])
      (answer : r = .error status)

/-- What the visit of a block does about its page: when the page joins the batch it has been given a
block and put under writeback, and else neither. -/
structure Tidy (ds : List Deed) (v : Visit) : Prop where
  /-- The page that joins the batch was given a block. -/
  granted : granted ds = v.page?.toList
  /-- It was put under writeback. -/
  shelved : shelved ds = v.page?.toList
  /-- Nothing is handed over. -/
  handed : handed ds = []
  /-- The walk goes on unless a page is refused. -/
  goesOn : (∀ status, v ≠ .failed status) → refusals ds = []
  /-- A refusal ends the visit. -/
  fails : ∀ status, v = .failed status → RefusesLast ds (.error status)

/-- Deeds that refuse nothing can come before. -/
theorem RefusesLast.after {ds ds' : List Deed} {r : Outcome Unit} (hds : refusals ds = [])
    (h : RefusesLast ds' r) : RefusesLast (ds ++ ds') r := by
  cases h with
  | never hnone =>
    refine .never ?_
    rw [refusals_append, hds, List.nil_append, hnone]
  | last front d status split before refused answer =>
    refine .last (ds ++ front) d status ?_ ?_ refused answer
    · rw [split, List.append_assoc]
    · rw [refusals_append, hds, List.nil_append, before]

/-- Idle deeds before a tidy visit leave it tidy. -/
theorem Tidy.after {ds ds' : List Deed} {v : Visit} (hidle : Idle ds) (h : Tidy ds' v) :
    Tidy (ds ++ ds') v where
  granted := by rw [granted_append, hidle.granted, List.nil_append, h.granted]
  shelved := by rw [shelved_append, hidle.shelved, List.nil_append, h.shelved]
  handed := by rw [handed_append, hidle.handed, List.nil_append, h.handed]
  goesOn hv := by rw [refusals_append, hidle.refusals, List.nil_append, h.goesOn hv]
  fails status hv := (h.fails status hv).after hidle.refusals

/-- A visit that is idle and passes is tidy. -/
theorem Idle.tidy {ds : List Deed} (h : Idle ds) : Tidy ds .passed :=
  ⟨h.granted, h.shelved, h.handed, fun _ => h.refusals, nofun⟩

/-- Settling a page is tidy. -/
theorem Settling.tidy {trigger : Trigger} {page : Page} {placing : Outcome Address → Exchange}
    {ds : List Deed} {v : Visit} (h : Settling trigger page placing ds v)
    (hplacing : ∀ r, placing r = ⟨.placeNode page, r⟩ ∨
      ∃ inode, placing r = ⟨.placeData inode page, r⟩) : Tidy ds v := by
  cases h with
  | left _ => exact Idle.tidy ⟨rfl, rfl, rfl, rfl⟩
  | placed _ new =>
    rcases hplacing (.ok new) with heq | ⟨inode, heq⟩ <;> rw [heq]
    · exact ⟨rfl, rfl, rfl, fun _ => rfl, nofun⟩
    · exact ⟨rfl, rfl, rfl, fun _ => rfl, nofun⟩
  | refused _ status =>
    have hlast : refusals [.call (placing (.error status))] = [status] ∧
        granted [.call (placing (.error status))] = [] ∧
        handed [.call (placing (.error status))] = [] := by
      rcases hplacing (.error status) with heq | ⟨inode, heq⟩ <;> rw [heq]
      · exact ⟨rfl, rfl, rfl⟩
      · exact ⟨rfl, rfl, rfl⟩
    refine ⟨hlast.2.1, rfl, hlast.2.2, fun hv => absurd rfl (hv status), fun status' hv => ?_⟩
    cases hv
    exact .last [] _ status rfl rfl hlast.1 rfl

/-- Visits are tidy. -/
theorem BlockKind.Visits.tidy {kind : BlockKind} {trigger : Trigger} {addr : Address}
    {entry : Summary} {ds : List Deed} {v : Visit} (h : kind.Visits trigger addr entry ds v) :
    Tidy ds v := by
  cases kind with
  | node =>
    cases h with
    | stale lookups => exact lookups.idle.tidy
    | @moved node info ds v _ settling =>
      have hbefore : Idle [.call ⟨.nodeInRange entry.nid, true⟩,
          .call ⟨.nodePage entry.nid, .ok node⟩, .call ⟨.nodeInfo entry.nid, .ok info⟩,
          .raise node.page .dirty] := ⟨rfl, rfl, rfl, rfl⟩
      exact (settling.tidy fun _ => Or.inl rfl).after hbefore
  | data =>
    cases h with
    | stale lookups => exact lookups.idle.tidy
    | released search answer =>
      exact (search.onlyLooks.idle.append ⟨rfl, rfl, rfl, rfl⟩).tidy
    | @moved ds ds' owner page v search settling =>
      have hbefore : Idle [.call ⟨.isLinked owner.inode, true⟩,
          .call ⟨.dataPage owner.inode owner.index, .ok page⟩, .raise page .dirty,
          .raise page .cold] := ⟨rfl, rfl, rfl, rfl⟩
      exact ((settling.tidy fun _ => Or.inr ⟨_, rfl⟩).after hbefore).after search.onlyLooks.idle

/-- A page that gets a block once it is settled is put under writeback. -/
theorem Settling.shelves {trigger : Trigger} {page page' : Page}
    {placing : Outcome Address → Exchange} {ds : List Deed} {v : Visit}
    (h : Settling trigger page placing ds v)
    (hplacing : ∀ r, placing r = ⟨.placeNode page, r⟩ ∨
      ∃ inode, placing r = ⟨.placeData inode page, r⟩) (hpage : page' ∈ granted ds) :
    page' = page ∧ .raise page .writeback ∈ ds := by
  rw [(h.tidy hplacing).granted] at hpage
  cases h with
  | left _ => cases hpage
  | placed _ new => exact ⟨List.mem_singleton.mp hpage, by simp⟩
  | refused _ status => cases hpage

/-- A page that gets a block in a visit is marked dirty first and put under writeback then. -/
theorem BlockKind.Visits.marks {kind : BlockKind} {trigger : Trigger} {addr : Address}
    {entry : Summary} {ds : List Deed} {v : Visit} (h : kind.Visits trigger addr entry ds v)
    {page : Page} (hpage : page ∈ granted ds) :
    List.Sublist [.raise page .dirty, .raise page .writeback] ds := by
  cases kind with
  | node =>
    cases h with
    | stale lookups =>
      rw [lookups.idle.granted] at hpage
      cases hpage
    | moved _ settling =>
      obtain ⟨rfl, hshelved⟩ := settling.shelves (fun _ => Or.inl rfl) hpage
      exact .cons _ (.cons _ (.cons _ (.cons_cons _ (List.singleton_sublist.mpr hshelved))))
  | data =>
    cases h with
    | stale lookups =>
      rw [lookups.idle.granted] at hpage
      cases hpage
    | released search _ =>
      rw [granted_append, search.onlyLooks.idle.granted] at hpage
      cases hpage
    | moved search settling =>
      rw [granted_append, search.onlyLooks.idle.granted] at hpage
      obtain ⟨rfl, hshelved⟩ := settling.shelves (fun _ => Or.inr ⟨_, rfl⟩) hpage
      exact List.sublist_append_of_sublist_right
        (.cons _ (.cons _ (.cons_cons _ (.cons _ (List.singleton_sublist.mpr hshelved)))))

/-! ## The account of a walk -/

/-- What the sights of a walk tell of its pages: they are put under writeback as they get their
blocks, nothing is handed over in between, and a refusal comes last. -/
structure Accounts (ss : List (Sight σ)) (r : Outcome Unit) : Prop where
  /-- The pages of the batch are those that were given a block. -/
  granted : granted (deedsAt ss) = placedAt ss
  /-- They are those that were put under writeback. -/
  shelved : shelved (deedsAt ss) = placedAt ss
  /-- Nothing is handed over. -/
  handed : handed (deedsAt ss) = []
  /-- A refusal comes last. -/
  refused : RefusesLast (deedsAt ss) r

/-- Where a walk has been: at the entries of a summary from an offset on, in ascending order, and
each block that it visited was live. -/
structure Route (visits : Address → Summary → List Deed → Visit → Prop) (seg : ℕ) (start : Address)
    (off : ℕ) (entries : List Summary) (ss : List (Sight σ)) : Prop where
  /-- The offsets ascend. -/
  ascending : ss.Pairwise fun s s' => s.off < s'.off
  /-- Each sight is at an entry. -/
  entry : ∀ s ∈ ss, ∃ k, s.off = off + k ∧ entries[k]? = some s.entry
  /-- The block is one of the segment and live. -/
  live : ∀ s ∈ ss, s.seg = seg ∧ s.before.area.isLive seg s.off = .ok true
  /-- It is visited under its address. -/
  visit : ∀ s ∈ ss, visits (start + s.off) s.entry s.deeds s.visit

/-- A visit that lets the walk go on is accounted for with the rest of the walk. -/
theorem Accounts.cons {s : Sight σ} {ss : List (Sight σ)} {r : Outcome Unit}
    (hs : Tidy s.deeds s.visit) (hon : ∀ status, s.visit ≠ .failed status) (h : Accounts ss r) :
    Accounts (s :: ss) r where
  granted := by rw [deedsAt_cons, placedAt_cons, granted_append, hs.granted, h.granted]
  shelved := by rw [deedsAt_cons, placedAt_cons, shelved_append, hs.shelved, h.shelved]
  handed := by rw [deedsAt_cons, handed_append, hs.handed, h.handed, List.nil_append]
  refused := h.refused.after (hs.goesOn hon)

/-- A visit that ends the walk is accounted for. -/
theorem Accounts.last {s : Sight σ} {status : Status} (hs : Tidy s.deeds s.visit)
    (hfailed : s.visit = .failed status) : Accounts [s] (.error status) where
  granted := by rw [deedsAt_cons, placedAt_cons, granted_append, hs.granted]; rfl
  shelved := by rw [deedsAt_cons, placedAt_cons, shelved_append, hs.shelved]; rfl
  handed := by rw [deedsAt_cons, handed_append, hs.handed]; rfl
  refused := by
    rw [deedsAt_cons]
    show RefusesLast (s.deeds ++ []) _
    rw [List.append_nil]
    exact hs.fails status hfailed

section

variable {visits : Address → Summary → List Deed → Visit → Prop} {seg off : ℕ} {start : Address}
  {entry : Summary} {entries : List Summary} {ss : List (Sight σ)}

/-- An entry that is passed over lies before the route. -/
theorem Route.skip (h : Route visits seg start (off + 1) entries ss) :
    Route visits seg start off (entry :: entries) ss where
  ascending := h.ascending
  entry s hs := by
    obtain ⟨k, hoff, hentry⟩ := h.entry s hs
    exact ⟨k + 1, by omega, by rw [List.getElem?_cons_succ, hentry]⟩
  live := h.live
  visit := h.visit

/-- A route begins at the first entry that is visited. -/
theorem Route.cons {s : Sight σ} (hoff : s.off = off) (hentry : s.entry = entry)
    (hlive : s.seg = seg ∧ s.before.area.isLive seg s.off = .ok true)
    (hvisit : visits (start + s.off) s.entry s.deeds s.visit)
    (h : Route visits seg start (off + 1) entries ss) :
    Route visits seg start off (entry :: entries) (s :: ss) where
  ascending := by
    refine List.pairwise_cons.mpr ⟨fun s' hs' => ?_, h.ascending⟩
    obtain ⟨k, hoff', -⟩ := h.entry s' hs'
    omega
  entry := List.forall_mem_cons.mpr ⟨⟨0, hoff, by rw [hentry]; rfl⟩, h.skip.entry⟩
  live := List.forall_mem_cons.mpr ⟨hlive, h.live⟩
  visit := List.forall_mem_cons.mpr ⟨hvisit, h.visit⟩

/-- A route without a sight. -/
theorem Route.nil : Route visits seg start off entries ([] : List (Sight σ)) :=
  ⟨.nil, List.forall_mem_nil _, List.forall_mem_nil _, List.forall_mem_nil _⟩

variable {b : Backend σ} {trigger : Trigger} {w w' : World σ} {r : Outcome Unit}

/-- A walk stays on its route. -/
theorem Walks.route (h : Walks b trigger visits seg start off entries w ss r w') :
    Route visits seg start off entries ss := by
  induction h with
  | done off w => exact .nil
  | yielded _ _ => exact .nil
  | dead _ _ _ ih => exact ih.skip
  | visited _ live visit _ _ _ ih => exact .cons rfl rfl ⟨rfl, live⟩ visit ih
  | failed _ live visit _ => exact .cons rfl rfl ⟨rfl, live⟩ visit .nil

/-- Walks of tidy visits are accounted for. -/
theorem Walks.accounts (h : Walks b trigger visits seg start off entries w ss r w')
    (htidy : ∀ addr entry ds v, visits addr entry ds v → Tidy ds v) : Accounts ss r := by
  induction h with
  | done off w => exact ⟨rfl, rfl, rfl, .never rfl⟩
  | yielded _ _ => exact ⟨rfl, rfl, rfl, .never rfl⟩
  | dead _ _ _ ih => exact ih
  | visited _ _ visit hv _ _ ih => exact .cons (htidy _ _ _ _ visit) hv ih
  | failed _ _ visit _ => exact .last (htidy _ _ _ _ visit) rfl

end

namespace Backend

/-- A call that moves the live blocks of a segment gives an answer unless a query of it is not
answered, the table has no such segment or its first block no address, or a block that it visits
lies so far back in its file that its index, or the one behind it, does not fit 64 bits. It visits
live blocks in the order of their offsets, and then at most one batch goes to the writer: the pages
that were given a block in the visits, in the order in which they were. Each of them was marked
dirty before that and put under writeback right after. This holds as well when a page is refused a
block. Then the visits end there, the call fails for the same reason, and the refusal puts nothing
under writeback. In the background no page is placed or handed over. -/
theorem collectLive_hands_over (b : Backend σ) (kind : BlockKind) (sum : SummaryBlock) (seg : ℕ)
    (trigger : Trigger) (w : World σ) :
    match b.collectLive kind sum seg trigger w with
    | .ok (r, w') => ∃ (ss : List (Sight σ)) (hs : List Deed),
        (∀ log, b.recorded.collectLive kind sum seg trigger (w.recorded log) =
          .ok (r, w'.recorded (log ++ calls (deedsAt ss ++ hs)))) ∧
        b.Goes trigger w (deedsAt ss ++ hs) w' ∧
        Route (kind.Visits trigger) seg (w.area.geometry.startBlock seg) 0 sum.entries.toList ss ∧
        (∀ s ∈ ss, ∀ page ∈ granted s.deeds,
          List.Sublist [.raise page .dirty, .raise page .writeback] s.deeds) ∧
        shelved (deedsAt ss) = granted (deedsAt ss) ∧ handed (deedsAt ss) = [] ∧
        HandsOver (granted (deedsAt ss)) hs ∧ RefusesLast (deedsAt ss) r ∧
        ∀ e ∈ calls (deedsAt ss ++ hs), e.1.Allowed trigger
    | .error t => b.Stops trigger [seg] (b.Meets trigger seg w) w t := by
  cases does_collectLive (b := b) kind sum (List.mem_singleton_self seg) fun _ => id with
  | stops run stuck =>
    rw [run]
    exact stuck
  | gives run noted went after =>
    obtain ⟨ss, hs, rfl, hcollects⟩ := after
    obtain ⟨r₁, w₁, hwalk, hverdict, -⟩ := hcollects.walk
    have haccounts := hwalk.accounts fun _ _ _ _ hvisit => hvisit.tidy
    have hover := hcollects.handover
    rw [← haccounts.granted] at hover
    rw [run]
    refine ⟨ss, hs, noted, went, hwalk.route, fun s hs _ => (hwalk.route.visit s hs).marks,
      haccounts.shelved.trans haccounts.granted.symm, haccounts.handed, hover, ?_, went.allowed⟩
    -- The last look at a data segment is taken after a walk that came to its end.
    cases hverdict with
    | same => exact haccounts.refused
    | leftover _ _ =>
      cases haccounts.refused with
      | never h => exact .never h
      | last _ _ _ _ _ _ answer => cases answer

/-- Of a file of two blocks the second is refused a new one, and the first goes to the writer all
the same. -/
example : Area.Command.reaches Area.tinyLayout
    [.allocate (some Log.warmData) 0, .allocate (some Log.warmData) 0,
      .allocate (some Log.warmNode) 0] (fun _ a =>
    match (Volume.backend Empty.elim).recorded.collectLive .data ⟨.data, #[⟨1, 0, 0⟩, ⟨1, 0, 1⟩]⟩ 1
      .foreground (World.recorded ⟨a, Collector.initial, ⟨[], 1⟩, { Volume.oneFile 72 66 with
        nodes := [(1, ⟨1, 72, 0, 0, #[66, 67], ⟨0, .node 1⟩⟩)]
        faults := [⟨"daddr", none, .ioError, 1, none⟩] }⟩ []) with
    | .ok (.error .ioError, w') => handed (w'.host.2.map .call) = [[⟨1, .data 1 0⟩]]
    | _ => false) = true := by decide +kernel

end Backend

end Reclaim
