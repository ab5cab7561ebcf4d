import Reclaim.Proofs.Area.Runs
import Reclaim.Proofs.Migration.Act
import Reclaim.Proofs.Volume.Ledger

/-!
# Collection keeps every block owned

Summaries are hints, so a visit checks the claim on a live block against the files before it moves
anything. Nothing changes between the check and the move, so the page that is placed or punched is
that of a holder of the very block that is visited. Hence every visit keeps the live blocks owned,
and with them `Collecting`, which says of each holder what has become of it since the pass began: it
holds what it held, or a block of its page lay in the section and it has been moved to a new block
or, as a slot of an orphan, been cleared.

`collectSection_keeps_ownership` is the result for a whole pass, however it ends.
-/

namespace Reclaim

/-- Whether the block at an address is live and lies in a section. -/
def Area.LiveIn (a : Area) (sec : ℕ) (addr : Address) : Prop :=
  a.LiveAt addr ∧ ∃ seg, a.geometry.segmentOf? addr = some seg ∧ a.geometry.sectionOf seg = sec

/-- A live block of a segment lies in the section of the segment. -/
theorem Area.Sound.liveIn_of_isLive {a : Area} (ha : a.Sound) {seg off : ℕ}
    (hseg : seg < a.geometry.segments) (h : a.isLive seg off = .ok true) :
    a.LiveIn (a.geometry.sectionOf seg) (a.geometry.startBlock seg + off) := by
  unfold Area.isLive at h
  obtain ⟨s, hget, h₁⟩ := Guarded.bind_eq_ok.mp h
  obtain ⟨-, rfl⟩ := SegmentTable.get_eq_ok.mp hget
  have hlive : (a.table.record seg).isLive off = true := by
    injection h₁
  have hoff := Segment.lt_of_isLive (ha.table.records seg hseg) hlive
  exact ⟨(Area.liveAt_block ha.geometry hseg hoff).mpr hlive, seg,
    Geometry.segmentOf?_block ha.geometry hseg hoff, rfl⟩

namespace Ledger

variable {σ α β : Type} {L : Ledger σ}

/-! ## Looking up in a row -/

/-- A returned value tells what holds of it. -/
theorem looks_pure {x : α} {tells : Files → α → Prop} (h : ∀ f, tells f x) :
    L.Looks (pure x) tells := by
  intro w r w' hw hrun
  obtain ⟨rfl, rfl⟩ := Act.pure_eq_ok.mp hrun
  exact ⟨.refl hw, h _⟩

/-- A lookup that goes on from another knows what that has told. -/
theorem Looks.bind {m : Act σ α} {g : α → Act σ β} {first : Files → α → Prop}
    {tells : Files → β → Prop} (hm : L.Looks m first)
    (hg : ∀ x, L.Looks (g x) fun f r => first f x → tells f r) : L.Looks (m >>= g) tells := by
  intro w r w' hw h
  obtain ⟨x, w₁, hx, h₁⟩ := Act.bind_eq_ok.mp h
  obtain ⟨hsame, hfirst⟩ := hm hw hx
  obtain ⟨hsame', htells⟩ := hg x (hsame.good hw) h₁
  rw [hsame.files] at htells
  exact ⟨hsame.trans hsame', htells hfirst⟩

/-- A check tells that it has been passed. -/
theorem looks_check (x : Guarded α) : L.Looks (Act.check x) fun _ r => x = .ok r := by
  intro w r w' hw hrun
  obtain ⟨hx, rfl⟩ := Act.check_eq_ok.mp hrun
  exact ⟨.refl hw, hx⟩

/-- The slot of the entry of a block, in the node that is found to point at the block, holds it. -/
theorem looks_claimant? {b : Backend σ} (hb : b.Contract L) (entry : Summary) (addr : Address) :
    L.Looks (b.claimant? entry addr) fun f r => ∀ inode node info, r = some (inode, node, info) →
      ∃ h, f.key h = .data inode.ino (node.first + entry.slot) ∧ f.pointer h = addr := by
  unfold Backend.claimant?
  refine (hb.nodeInRange entry.nid).bind fun inRange => ?_
  split_ifs with hrange
  · refine (hb.nodePage entry.nid).bind fun page => ?_
    cases page with
    | error status => exact looks_pure fun f _ _ _ _ _ h => nomatch h
    | ok node =>
      refine (hb.nodeInfo entry.nid).bind fun info => ?_
      cases info with
      | error status => exact looks_pure fun f _ _ _ _ _ _ h => nomatch h
      | ok info =>
        dsimp only
        split_ifs with hversion hpointer
        · refine (hb.inode info.ino).bind fun inode => ?_
          cases inode with
          | error status => exact looks_pure fun f _ _ _ _ _ _ _ h => nomatch h
          | ok inode =>
            refine looks_pure fun f hinode hinfo hnode _ _ _ _ h => ?_
            cases h
            -- The checks have passed: the slot of the summary holds the block.
            obtain ⟨-, hfirst, hslots⟩ := hnode node rfl
            obtain ⟨hino, -⟩ := hinfo info rfl
            refine ⟨.slot entry.nid entry.slot, ?_, by rw [← hslots, hpointer]⟩
            show PageKey.data _ _ = _
            rw [hinode inode rfl, hino, hfirst]
        · refine (hb.inode info.ino).bind fun inode => ?_
          cases inode <;> exact looks_pure fun f _ _ _ _ _ _ _ h => nomatch h
        · exact looks_pure fun f _ _ _ _ _ _ h => nomatch h
  · exact looks_pure fun f _ _ _ _ h => nomatch h

/-- The owner of a block that is found is the one whose slot holds the block. -/
theorem looks_owner? {b : Backend σ} (hb : b.Contract L) (entry : Summary) (addr : Address) :
    L.Looks (b.owner? entry addr) fun f r => ∀ owner, r = some owner →
      ∃ h, f.key h = .data owner.inode.ino owner.index ∧ f.pointer h = addr := by
  unfold Backend.owner?
  refine (looks_claimant? hb entry addr).bind fun claimant => ?_
  cases claimant with
  | none => exact looks_pure fun f _ owner h => nomatch h
  | some claimant =>
    obtain ⟨inode, node, info⟩ := claimant
    refine (looks_check _).bind fun index => looks_pure fun f hindex hclaim owner h => ?_
    cases h
    obtain ⟨-, rfl⟩ := Guarded.fit64_eq_ok.mp hindex
    exact hclaim inode node info rfl

/-! ## What becomes of the holders -/

/-- Whether a holder of a page had a live block in a section. -/
def Collected (L : Ledger σ) (sec : ℕ) (w : World σ) (key : PageKey) : Prop :=
  ∃ h, (L.files w.host).key h = key ∧ w.area.LiveIn sec ((L.files w.host).pointer h)

/-- What the collection of a section may have done to a holder. -/
inductive Fate (L : Ledger σ) (trigger : Trigger) (sec : ℕ) (w w' : World σ) (h : Holder) : Prop
  /-- It holds what it held. -/
  | kept (same : (L.files w'.host).pointer h = (L.files w.host).pointer h)
  /-- In the foreground it has been moved to a new block. No block of an orphan is moved. -/
  | moved (foreground : trigger = .foreground)
      (collected : L.Collected sec w ((L.files w.host).key h))
      (linked : ∀ nid index, h = .slot nid index →
        (L.files w.host).linked ((L.files w.host).owner nid) = true)
      (allocated : Address.isAllocated ((L.files w'.host).pointer h) = true)
      (unspent : ¬w.area.Spent ((L.files w'.host).pointer h))
  /-- As a slot of an orphan it has been cleared. -/
  | released (collected : L.Collected sec w ((L.files w.host).key h))
      (orphan : ∃ nid index, h = .slot nid index ∧
        (L.files w.host).linked ((L.files w.host).owner nid) = false)
      (null : (L.files w'.host).pointer h = Address.null)

variable {trigger : Trigger} {sec : ℕ} {w w₁ w' : World σ} {key : PageKey}

/-- Nothing more becomes of a holder that keeps what it holds. -/
theorem Fate.of_eq {h : Holder} (hfate : L.Fate trigger sec w w₁ h)
    (hsame : (L.files w'.host).pointer h = (L.files w₁.host).pointer h) :
    L.Fate trigger sec w w' h := by
  cases hfate with
  | kept same => exact .kept (hsame.trans same)
  | moved foreground collected linked allocated unspent =>
    rw [← hsame] at allocated unspent
    exact .moved foreground collected linked allocated unspent
  | released collected orphan null => exact .released collected orphan (hsame.trans null)

/-- What the collection of a section has done so far. -/
structure Collecting (L : Ledger σ) (trigger : Trigger) (sec : ℕ) (w w' : World σ) : Prop where
  /-- The world was in order. -/
  start : L.Good w
  /-- It is in order. -/
  good : L.Good w'
  /-- The area has evolved. -/
  evolves : w.area.Evolves w'.area
  /-- The holders are those of the same pages. -/
  key : ∀ h, (L.files w'.host).key h = (L.files w.host).key h
  /-- The same inodes are linked. -/
  linked : (L.files w'.host).linked = (L.files w.host).linked
  /-- Nothing else has become of the holders. -/
  fate : ∀ h, L.Fate trigger sec w w' h

/-- Nothing has been done at first. -/
theorem Collecting.refl (hw : L.Good w) : L.Collecting trigger sec w w :=
  ⟨hw, hw, .refl _, fun _ => rfl, rfl, fun _ => .kept rfl⟩

/-- Nothing is done by what changes neither the area nor the files. -/
theorem Collecting.of_same (hw : L.Collecting trigger sec w w₁) (h : L.Same w₁ w') :
    L.Collecting trigger sec w w' where
  start := hw.start
  good := h.good hw.good
  evolves := by
    rw [h.area]
    exact hw.evolves
  key holder := by
    rw [h.files]
    exact hw.key holder
  linked := by
    rw [h.files]
    exact hw.linked
  fate holder := (hw.fate holder).of_eq (by rw [h.files])

/-- What has been done is a matter of the area and of what the filesystem keeps. -/
theorem lasting_collecting (w : World σ) : Act.Lasting (L.Collecting trigger sec w) := by
  intro w₁ w' harea hhost hw
  refine hw.of_same ⟨harea, ?_, ?_⟩
  · rw [hhost]
  · rw [hhost]
    exact hw.good.valid

/-- A holder that has a live block in the section now is of a page that had one at first. -/
theorem Collecting.collected (hw : L.Collecting trigger sec w w₁) {h : Holder}
    (hlive : w₁.area.LiveIn sec ((L.files w₁.host).pointer h)) :
    L.Collected sec w ((L.files w₁.host).key h) := by
  rw [hw.key]
  obtain ⟨hlive, hsec⟩ := hlive
  cases hw.fate h with
  | kept same =>
    rw [same] at hlive hsec
    rw [hw.evolves.geometry] at hsec
    exact ⟨h, rfl, hw.start.owned.live hlive.isAllocated, hsec⟩
  | moved _ collected => exact collected
  | released collected => exact collected

/-- Placing a page that had a block in the section does what collection may do. -/
theorem Collecting.placed (hw : L.Collecting .foreground sec w w₁) {r : Outcome Address}
    (hcollected : L.Collected sec w key)
    (hlinked : ∀ ino index, key = .data ino index → (L.files w.host).linked ino = true)
    (h : L.Placed key w₁ r w') : L.Collecting .foreground sec w w' := by
  cases h with
  | refused same => exact hw.of_same same
  | @moved new w' holder page replaced files valid =>
    have hmoved := replaced.moved hw.good.sound hw.good.owned.live
    have hpage : (L.files w.host).key holder = key := by rw [← hw.key, page]
    refine ⟨hw.start, ⟨hmoved.sound, valid, ?_⟩, hw.evolves.trans hmoved.evolves, fun h => ?_, ?_,
      fun h => ?_⟩
    · rw [files]
      exact hw.good.owned.repoint hw.good.sound hmoved
    · rw [files, Files.key_repoint]
      exact hw.key h
    · rw [files]
      exact hw.linked
    · by_cases hsame : h = holder
      · subst h
        -- The holder of the page has a new block, unspent when the collection began.
        have hnew : (L.files w'.host).pointer holder = new := by
          rw [files]
          exact if_pos rfl
        refine .moved rfl (by rw [hpage]; exact hcollected) ?_ ?_ ?_
        · rintro nid index rfl
          exact hlinked _ _ hpage.symm
        · rw [hnew]
          exact hmoved.allocated
        · rw [hnew]
          exact fun hspent => hmoved.unspent (hw.evolves.spent new hspent)
      · exact (hw.fate h).of_eq (by rw [files]; exact if_neg hsame)

/-- Releasing a page of an orphan that had a block in the section does what collection may do. -/
theorem Collecting.punched (hw : L.Collecting trigger sec w w₁) {r : Outcome Unit} {ino index : ℕ}
    (hcollected : L.Collected sec w (.data ino index))
    (horphan : (L.files w.host).linked ino = false)
    (h : L.Punched (.data ino index) w₁ r w') : L.Collecting trigger sec w w' := by
  cases h with
  | refused same => exact hw.of_same same
  | released hs page dropped files valid =>
    obtain ⟨hsound, hevolves, hlive⟩ := dropped.spec hw.good.sound
    refine ⟨hw.start, ⟨hsound, valid, ?_⟩, hw.evolves.trans hevolves, fun h => ?_, ?_, fun h => ?_⟩
    · rw [files]
      exact hw.good.owned.clear hlive
    · rw [files, Files.key_clear]
      exact hw.key h
    · rw [files]
      exact hw.linked
    · by_cases hmem : h ∈ hs
      · have hpage : (L.files w.host).key h = .data ino index := by rw [← hw.key, page h hmem]
        refine .released (by rw [hpage]; exact hcollected) ?_ (by rw [files]; exact if_pos hmem)
        cases h with
        | node nid => cases hpage
        | slot nid slot =>
          cases hpage
          exact ⟨nid, slot, rfl, horphan⟩
      · exact (hw.fate h).of_eq (by rw [files]; exact if_neg hmem)

/-! ## Visits -/

section

variable {b : Backend σ}

/-- Settling a marked page of the section does what collection may do. -/
theorem keeps_settle {place : Page → Act σ (Outcome Address)} {page : Page}
    (hplace : L.Places (place page) key) (hcollected : L.Collected sec w key)
    (hlinked : ∀ ino index, key = .data ino index → (L.files w.host).linked ino = true) :
    Act.Keeps (L.Collecting trigger sec w) (Backend.settle place trigger page) := by
  cases trigger with
  | background => exact Act.keeps_pure _
  | foreground =>
    intro w₁ r w' hw h
    obtain ⟨placed, w₂, hplaced, h₁⟩ := Act.bind_eq_ok.mp h
    have hw₂ := hw.placed hcollected hlinked (hplace hw.good hplaced)
    cases placed with
    | error status => exact Act.keeps_pure _ hw₂ h₁
    | ok addr =>
      exact (Act.keeps_mark (lasting_collecting w) _ _ _).bind (fun _ => Act.keeps_pure _) hw₂ h₁

/-- Visiting a live block of the section as that of a node does what collection may do. -/
theorem keeps_visitNode (hb : b.Contract L) (hw : L.Collecting trigger sec w w₁) {addr : Address}
    {entry : Summary} {r : Visit} (hlive : w₁.area.LiveIn sec addr)
    (h : b.visitNode trigger addr entry w₁ = .ok (r, w')) : L.Collecting trigger sec w w' := by
  have hI : Act.Lasting (L.Collecting trigger sec w) := lasting_collecting w
  unfold Backend.visitNode at h
  obtain ⟨inRange, w₂, hrange, h₂⟩ := Act.bind_eq_ok.mp h
  have hs₂ := (hb.nodeInRange _ hw.good hrange).1
  have hw₂ := hw.of_same hs₂
  split_ifs at h₂ with hin
  · obtain ⟨page, w₃, hpage, h₃⟩ := Act.bind_eq_ok.mp h₂
    obtain ⟨hs₃, htold⟩ := hb.nodePage _ hw₂.good hpage
    have hw₃ := hw₂.of_same hs₃
    cases page with
    | error status => exact Backend.keeps_passStale hI hw₃ h₃
    | ok node =>
      obtain ⟨hkey, -, -⟩ := htold node rfl
      obtain ⟨info, w₄, hinfo, h₄⟩ := Act.bind_eq_ok.mp h₃
      obtain ⟨hs₄, htold'⟩ := hb.nodeInfo _ hw₃.good hinfo
      have hw₄ := hw₃.of_same hs₄
      cases info with
      | error status => exact Backend.keeps_passStale hI hw₄ h₄
      | ok info =>
        obtain ⟨-, haddress⟩ := htold' info rfl
        rw [hs₃.files, hs₂.files] at haddress
        dsimp only at h₄
        split_ifs at h₄ with hhere
        · -- The node holds the block that is visited.
          have hcollected : L.Collected sec w (.node entry.nid) := by
            refine hw.collected (h := .node entry.nid) ?_
            rw [← haddress, hhere]
            exact hlive
          have hplace := hb.placeNode node.page entry.nid hkey
          exact (Act.keeps_mark hI _ _ _).bind (fun _ => (Act.keeps_count hI _).bind fun _ =>
            keeps_settle hplace hcollected fun ino index heq => by cases heq) hw₄ h₄
        · exact Backend.keeps_passStale hI hw₄ h₄
  · exact Backend.keeps_passStale hI hw₂ h₂

/-- Visiting a live block of the section as that of a file does what collection may do. -/
theorem keeps_visitData (hb : b.Contract L) (hw : L.Collecting trigger sec w w₁) {addr : Address}
    {entry : Summary} {r : Visit} (hlive : w₁.area.LiveIn sec addr)
    (h : b.visitData trigger addr entry w₁ = .ok (r, w')) : L.Collecting trigger sec w w' := by
  have hI : Act.Lasting (L.Collecting trigger sec w) := lasting_collecting w
  unfold Backend.visitData at h
  obtain ⟨owner, w₂, howner, h₂⟩ := Act.bind_eq_ok.mp h
  obtain ⟨hs₂, hheld⟩ := looks_owner? hb entry addr hw.good howner
  have hw₂ := hw.of_same hs₂
  cases owner with
  | none => exact Backend.keeps_passStale hI hw₂ h₂
  | some owner =>
    -- A slot of the owner holds the block that is visited.
    have hcollected : L.Collected sec w (.data owner.inode.ino owner.index) := by
      obtain ⟨holder, hkey, hpointer⟩ := hheld owner rfl
      rw [← hkey]
      refine hw.collected ?_
      rw [hpointer]
      exact hlive
    obtain ⟨linked, w₃, hlinked, h₃⟩ := Act.bind_eq_ok.mp h₂
    obtain ⟨hs₃, htold⟩ := hb.isLinked _ hw₂.good hlinked
    have hw₃ := hw₂.of_same hs₃
    rw [hw₂.linked] at htold
    cases linked with
    | true =>
      obtain ⟨page, w₄, hpage, h₄⟩ := Act.bind_eq_ok.mp h₃
      obtain ⟨hs₄, hkey⟩ := hb.dataPage _ _ hw₃.good hpage
      have hw₄ := hw₃.of_same hs₄
      cases page with
      | error status => exact Act.keeps_pure _ hw₄ h₄
      | ok page =>
        have hplace := hb.placeData owner.inode page owner.index (hkey page rfl)
        refine (Act.keeps_mark hI _ _ _).bind (fun _ => (Act.keeps_mark hI _ _ _).bind fun _ =>
          (Act.keeps_count hI _).bind fun _ => keeps_settle hplace hcollected ?_) hw₄ h₄
        rintro ino index heq
        cases heq
        exact htold.symm
    | false =>
      obtain ⟨stop, w₃', hstop, h₃⟩ := Act.bind_eq_ok.mp h₃
      obtain ⟨hfits, rfl⟩ := Act.check_eq_ok.mp hstop
      obtain ⟨-, rfl⟩ := Guarded.fit64_eq_ok.mp hfits
      obtain ⟨punched, w₄, hpunched, h₄⟩ := Act.bind_eq_ok.mp h₃
      have hw₄ := hw₃.punched hcollected htold.symm (hb.punch _ _ hw₃.good hpunched)
      cases punched with
      | error status => exact Act.keeps_pure _ hw₄ h₄
      | ok _ => exact (Act.keeps_count hI _).bind (fun _ => Act.keeps_pure _) hw₄ h₄

/-! ## Passes -/

/-- Collecting a section does what collection may do, however it ends. -/
theorem collecting_collectSection (hb : b.Contract L) (hw : L.Good w) {start : ℕ} {r : Outcome Unit}
    (h : b.collectSection start trigger w = .ok (r, w')) :
    L.Collecting trigger (w.area.geometry.sectionOf start) w w' := by
  have hI : Act.Lasting (L.Collecting trigger (w.area.geometry.sectionOf start) w) :=
    lasting_collecting w
  refine Backend.keeps_collectSection hI ?_ (Collecting.refl hw) h
  -- The segments that are walked over are those of the section, and all visits are to live blocks.
  intro w₁ hw₁ hstart haligned seg hmem
  rw [hw₁.evolves.geometry] at hstart haligned hmem
  have hg := hw.sound.geometry
  have hsec : w.area.geometry.sectionOf seg = w.area.geometry.sectionOf start := by
    rw [← Geometry.mem_sectionSegments hg]
    unfold Geometry.sectionSegments
    rw [← Geometry.sub_mod_eq_firstSegment, haligned, Nat.sub_zero]
    exact hmem
  have hseg := Geometry.lt_segments_of_sectionOf hg (Geometry.sectionOf_lt hg hstart) hsec
  refine Backend.keeps_collectSegment hI ?_ ?_ ?_
  · exact fun seg w₂ sum w₃ hw₂ hrun => hw₂.of_same (hb.summary seg hw₂.good hrun).1
  · exact fun batch w₂ taken w₃ hw₂ hrun => hw₂.of_same (hb.writeback batch hw₂.good hrun).1
  · intro w₀ off entry visit w₂ visited w₃ hcase hw₀ hw₂ hislive hrun
    rw [hw₀.evolves.geometry, ← hw₂.evolves.geometry] at hrun
    have hlive : w₂.area.LiveIn (w.area.geometry.sectionOf start)
        (w₂.area.geometry.startBlock seg + off) := by
      rw [← hsec, ← hw₂.evolves.geometry]
      refine hw₂.good.sound.liveIn_of_isLive ?_ hislive
      rw [hw₂.evolves.geometry]
      exact hseg
    rcases hcase with rfl | rfl
    · exact keeps_visitNode hb hw₂ hlive hrun
    · exact keeps_visitData hb hw₂ hlive hrun

/-- In a reachable area whose live blocks are owned, collecting a section leaves the live blocks
owned, wherever it starts, for whomever it collects, whatever the summaries say and however it ends:
the blocks that are live are those that are held, each of them once. No holder loses its block: it
holds what it held, or a block of its page lay in the section and it has been moved to a new block
or, as a slot of an orphan, been cleared. -/
theorem collectSection_keeps_ownership (hb : b.Contract L) (harea : w.area.Reachable)
    (hvalid : L.Valid w.host) (howned : (L.files w.host).Owned w.area) {start : ℕ} {r : Outcome Unit}
    (h : b.collectSection start trigger w = .ok (r, w')) :
    (L.files w'.host).Owned w'.area ∧
      ∀ holder, L.Fate trigger (w.area.geometry.sectionOf start) w w' holder := by
  have hcollecting := collecting_collectSection hb ⟨harea.sound, hvalid, howned⟩ h
  exact ⟨hcollecting.good.owned, hcollecting.fate⟩

end

/-- The one block of a file is moved out of its section, and the blocks stay owned. -/
theorem collectSection_keeps_ownership_moved :
    ∃ (w w' : World (Volume Empty Unit)) (r : Outcome Unit), w.area.Reachable ∧
      w.host.files.Owned w.area ∧
      (Volume.backend Empty.elim).collectSection 1 .foreground w = .ok (r, w') ∧
      w.host.files.pointer (.slot 1 0) = 66 ∧ w'.host.files.pointer (.slot 1 0) = 68 ∧
      w'.host.files.Owned w'.area := by
  obtain ⟨a₀, events, a, hcreate, hrun, h⟩ := Area.Run.of_reaches Area.tinyLayout
    [.allocate (some Log.warmData) 0, .allocate (some Log.warmNode) 0]
    (fun events a => events.map (·.written) = [some 66, some 72] &&
      match (Volume.backend Empty.elim).collectSection 1 .foreground
        (World.mk a Collector.initial ⟨[], 1⟩ (Volume.oneFile 72 66)) with
      | .ok (_, w') => w'.host.files.pointer (.slot 1 0) = 68
      | .error _ => false) (by decide +kernel)
  rw [Bool.and_eq_true, decide_eq_true_iff] at h
  obtain ⟨hwritten, h⟩ := h
  split at h
  · next r w' hcollect =>
    have hreachable : a.Reachable := ⟨_, _, _, hcreate, hrun⟩
    have ha₀ := Area.create_sound hcreate
    -- The block and the node are what the run has written.
    cases hrun with
    | nil => cases hwritten
    | cons first _ hfirst hran₁ hrest =>
      cases hrest with
      | nil => cases hwritten
      | cons second _ hsecond hran₂ hrest =>
        have hstep₁ := Area.Command.spec ha₀ hfirst hran₁
        have hstep₂ := Area.Command.spec hstep₁.sound hsecond hran₂
        cases hrest with
        | cons => cases hwritten
        | nil =>
          cases hwritten
          have howned := Volume.owned_oneFile (Area.not_liveAt_of_create hcreate) ha₀
            (hstep₁.wrote 66 rfl) (hstep₂.wrote 72 rfl)
          have hkept := collectSection_keeps_ownership (L := Volume.ledger)
            (w := ⟨a, Collector.initial, ⟨[], 1⟩, Volume.oneFile 72 66⟩)
            (Volume.backend_contract Empty.elim) hreachable (Volume.valid_oneFile 72 66) howned
            hcollect
          exact ⟨_, w', r, hreachable, howned, hcollect, rfl, of_decide_eq_true h, hkept.1⟩
  · cases h

end Ledger

end Reclaim
