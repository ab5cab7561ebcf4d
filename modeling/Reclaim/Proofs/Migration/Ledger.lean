import Reclaim.Migration.World
import Reclaim.Proofs.Area.Writing

/-!
# Who holds which block

Nodes and the slots in them hold addresses. `Files` is what matters of them here: what each of them
holds, and which block of which file that is. The blocks of an area are owned (`Files.Owned`) when
the live ones are those that are held, each of them once. Pointing a holder at a block written for
it and dropping the one it had keeps the blocks owned (`Owned.repoint`), and so does clearing
holders and dropping what they held (`Owned.clear`).

A `Ledger` reads the files off what a filesystem keeps for itself. `Backend.Contract` states what
collection relies on: that looking something up tells the truth and changes nothing, and that
placing and punching either fail without effect or do the two things above.
-/

namespace Reclaim

/-! ## What the area does when a block moves or dies -/

namespace Area

variable {a a' : Area} {old new : Address}

/-- One area comes from another by writing a block and dropping another, in either order. -/
inductive Replaced (a : Area) (old new : Address) (a' : Area) : Prop
  /-- The new block is written before the old one is dropped. -/
  | written {log : Option Log} {now : ℕ} {a₁ : Area} {r : Outcome Unit}
      (write : a.allocate log now = .ok (.ok new, a₁)) (drop : a₁.invalidate old = .ok (r, a'))
  /-- The old block is dropped before the new one is written. -/
  | dropped {log : Option Log} {now : ℕ} {a₁ : Area} {r : Outcome Unit}
      (drop : a.invalidate old = .ok (r, a₁)) (write : a₁.allocate log now = .ok (.ok new, a'))

/-- One area comes from another by dropping blocks one after the other. -/
inductive Dropped : Area → List Address → Area → Prop
  /-- Nothing is dropped. -/
  | nil (a : Area) : Dropped a [] a
  /-- A block is dropped, and then the others. -/
  | cons {a a₁ a' : Area} {addr : Address} {addrs : List Address} {r : Outcome Unit}
      (drop : a.invalidate addr = .ok (r, a₁)) (rest : Dropped a₁ addrs a') :
      Dropped a (addr :: addrs) a'

/-- What replacing a block does: the new block had not been spent and is live now, the old one is
dead, and every other block is as before. -/
structure Moved (a : Area) (old new : Address) (a' : Area) : Prop where
  /-- The new area is sound. -/
  sound : a'.Sound
  /-- It has evolved from the old one. -/
  evolves : a.Evolves a'
  /-- The new address names a block. -/
  allocated : Address.isAllocated new = true
  /-- The new block was not spent. -/
  unspent : ¬a.Spent new
  /-- The new block is live, the old one dead, and every other one as before. -/
  live : ∀ x, a'.LiveAt x ↔ a.LiveAt x ∧ x ≠ old ∨ x = new

/-- An allocation that tells an address has written the block there. -/
theorem Sound.wrote_of_allocate (ha : a.Sound) {log : Option Log} {now : ℕ}
    (h : a.allocate log now = .ok (.ok new, a')) : a.Wrote new a' := by
  rcases ha.allocate log now with htrap | ⟨status, hrefused⟩ | ⟨addr, a₁, hok, hwrote⟩
  · rw [htrap] at h
    cases h
  · rw [hrefused] at h
    cases h
  · rw [hok] at h
    cases h
    exact hwrote

/-- An allocation that is refused changes nothing. -/
theorem Sound.eq_of_refused (ha : a.Sound) {log : Option Log} {now : ℕ} {status : Status}
    (h : a.allocate log now = .ok (.error status, a')) : a' = a := by
  rcases ha.allocate log now with htrap | ⟨status', hrefused⟩ | ⟨addr, a₁, hok, -⟩
  · rw [htrap] at h
    cases h
  · rw [hrefused] at h
    cases h
    rfl
  · rw [hok] at h
    cases h

/-- Dropping a block is refused only outside the area. -/
theorem invalidate_accepts {addr : Address} {r : Outcome Unit} (h : a.invalidate addr = .ok (r, a'))
    (hlive : Address.isAllocated addr = true → a.LiveAt addr) : r = .ok () := by
  unfold invalidate at h
  split_ifs at h with hallocated
  · obtain ⟨seg, hseg, -⟩ := hlive hallocated
    rw [hseg] at h
    obtain ⟨⟨changed, table⟩, -, h₁⟩ := Guarded.bind_eq_ok.mp h
    dsimp only at h₁
    split_ifs at h₁
    · obtain ⟨a₁, -, h₂⟩ := Guarded.bind_eq_ok.mp h₁
      cases h₂
      rfl
    · cases h₁
      rfl
  · cases h
    rfl

/-- A written block has the address of a block. -/
theorem Wrote.isAllocated (h : a.Wrote new a') : Address.isAllocated new = true := by
  obtain ⟨seg, hseg⟩ := h.inside
  exact Geometry.isAllocated_of_segmentOf? hseg

/-- Replacing a block does what it should, if the old one is live or no block at all. -/
theorem Replaced.moved (h : a.Replaced old new a') (ha : a.Sound)
    (hold : Address.isAllocated old = true → a.LiveAt old) : a.Moved old new a' := by
  cases h with
  | written write drop =>
    have hwrote := ha.wrote_of_allocate write
    obtain ⟨hsound, hevolves, hlive⟩ := hwrote.sound.invalidate_evolves drop
    -- What is written is none of the spent blocks, so it is not the one that is dropped.
    have hne : new ≠ old := by
      rintro rfl
      exact hwrote.unspent (ha.spent_of_live (hold hwrote.isAllocated))
    refine ⟨hsound, hwrote.evolves.trans hevolves, hwrote.isAllocated, hwrote.unspent, fun x => ?_⟩
    rw [hlive, hwrote.live]
    constructor
    · rintro ⟨hx | rfl, hxold⟩
      · exact Or.inl ⟨hx, hxold⟩
      · exact Or.inr rfl
    · rintro (⟨hx, hxold⟩ | rfl)
      · exact ⟨Or.inl hx, hxold⟩
      · exact ⟨Or.inr rfl, hne⟩
  | dropped drop write =>
    obtain ⟨hsound, hevolves, hlive⟩ := ha.invalidate_evolves drop
    have hwrote := hsound.wrote_of_allocate write
    refine ⟨hwrote.sound, hevolves.trans hwrote.evolves, hwrote.isAllocated,
      fun hspent => hwrote.unspent (hevolves.spent _ hspent), fun x => ?_⟩
    rw [hwrote.live, hlive]

/-- Writing a block in the place of none is a replacement. -/
theorem Wrote.moved (h : a.Wrote new a') : a.Moved Address.null new a' where
  sound := h.sound
  evolves := h.evolves
  allocated := h.isAllocated
  unspent := h.unspent
  live x := by
    rw [h.live, and_iff_left_of_imp]
    rintro hlive rfl
    cases hlive.isAllocated

/-- Dropping blocks leaves a sound area in which they are dead and every other one is as before. -/
theorem Dropped.spec {addrs : List Address} (h : a.Dropped addrs a') :
    a.Sound → a'.Sound ∧ a.Evolves a' ∧ ∀ x, a'.LiveAt x ↔ a.LiveAt x ∧ x ∉ addrs := by
  induction h with
  | nil a => exact fun ha => ⟨ha, Evolves.refl a, fun x => by simp⟩
  | cons drop _ ih =>
    intro ha
    obtain ⟨hsound₁, hevolves₁, hlive₁⟩ := ha.invalidate_evolves drop
    obtain ⟨hsound, hevolves, hlive⟩ := ih hsound₁
    refine ⟨hsound, hevolves₁.trans hevolves, fun x => ?_⟩
    rw [hlive, hlive₁, List.mem_cons, not_or, and_assoc]

end Area

/-! ## Files and their blocks -/

/-- What holds an address. -/
inductive Holder where
  /-- The entry of a node in the address table, which holds the block of the node. -/
  | node (nid : ℕ)
  /-- A slot of a node, which holds a block of the file of the node. -/
  | slot (nid index : ℕ)
deriving DecidableEq

/-- What is held, and for which file. -/
structure Files where
  /-- What each holder holds. -/
  pointer : Holder → Address
  /-- The inode that owns each node. -/
  owner : ℕ → ℕ
  /-- The file index of the first slot of each node. -/
  first : ℕ → ℕ
  /-- Whether each inode is linked. -/
  linked : ℕ → Bool

namespace Files

/-- The page of a holder: that of the node, or that of the file at the index of the slot. -/
def key (f : Files) : Holder → PageKey
  | .node nid => .node nid
  | .slot nid index => .data (f.owner nid) (f.first nid + index)

/-- Points a holder at an address. -/
def repoint (f : Files) (h : Holder) (addr : Address) : Files :=
  { f with pointer := fun h' => if h' = h then addr else f.pointer h' }

/-- Points each of a list of holders at nothing. -/
def clear (f : Files) (hs : List Holder) : Files :=
  { f with pointer := fun h' => if h' ∈ hs then Address.null else f.pointer h' }

/-- The live blocks of an area are those that are held, and no two holders hold the same one. -/
structure Owned (f : Files) (a : Area) : Prop where
  /-- A block is live when it is held. -/
  live_iff : ∀ x, a.LiveAt x ↔ Address.isAllocated x = true ∧ ∃ h, f.pointer h = x
  /-- What two holders hold is no block. -/
  unique : ∀ h h', Address.isAllocated (f.pointer h) = true → f.pointer h = f.pointer h' → h = h'

variable {f : Files} {a a' : Area}

/-- Pages are those of the same holders when a holder is pointed elsewhere. -/
@[simp]
theorem key_repoint (h h' : Holder) (addr : Address) : (f.repoint h addr).key h' = f.key h' := by
  cases h' <;> rfl

/-- Pages are those of the same holders when holders are cleared. -/
@[simp]
theorem key_clear (hs : List Holder) (h' : Holder) : (f.clear hs).key h' = f.key h' := by
  cases h' <;> rfl

/-- A held block is live. -/
theorem Owned.live (ho : f.Owned a) {h : Holder} (hptr : Address.isAllocated (f.pointer h) = true) :
    a.LiveAt (f.pointer h) :=
  (ho.live_iff _).mpr ⟨hptr, h, rfl⟩

/-- Nothing is live and nothing is held. -/
theorem owned_of_dead (hdead : ∀ x, ¬a.LiveAt x) (hnull : ∀ h, f.pointer h = Address.null) :
    f.Owned a where
  live_iff x := by
    refine ⟨fun hlive => absurd hlive (hdead x), ?_⟩
    rintro ⟨hx, h, rfl⟩
    rw [hnull] at hx
    cases hx
  unique h _ hx := by
    rw [hnull] at hx
    cases hx

/-- Blocks stay owned when a holder is pointed at a block written for it and the one it had is
dropped. -/
theorem Owned.repoint (ho : f.Owned a) (ha : a.Sound) {h : Holder} {new : Address}
    (hmoved : a.Moved (f.pointer h) new a') : (f.repoint h new).Owned a' := by
  -- Held blocks are live, hence spent, so nobody holds the new one yet.
  have hnew : ∀ h', f.pointer h' ≠ new := by
    rintro h' rfl
    exact hmoved.unspent (ha.spent_of_live (ho.live hmoved.allocated))
  constructor
  · intro x
    rw [hmoved.live, ho.live_iff]
    constructor
    · rintro (⟨⟨hx, h', rfl⟩, hne⟩ | rfl)
      · refine ⟨hx, h', if_neg ?_⟩
        rintro rfl
        exact hne rfl
      · exact ⟨hmoved.allocated, h, if_pos rfl⟩
    · rintro ⟨hx, h', hptr⟩
      dsimp only [Files.repoint] at hptr
      split_ifs at hptr with hsame
      · exact Or.inr hptr.symm
      · -- Only the holder that is repointed held the old block.
        refine Or.inl ⟨⟨hx, h', hptr⟩, ?_⟩
        rintro rfl
        exact hsame (ho.unique h' h (by rw [hptr]; exact hx) hptr)
  · intro h₁ h₂ hx heq
    dsimp only [Files.repoint] at hx heq
    split_ifs at hx heq with h₁h h₂h h₂h
    · rw [h₁h, h₂h]
    · exact absurd heq.symm (hnew h₂)
    · exact absurd heq (hnew h₁)
    · exact ho.unique h₁ h₂ hx heq

/-- Blocks stay owned when holders are cleared and what they held is dropped. -/
theorem Owned.clear (ho : f.Owned a) {hs : List Holder}
    (hlive : ∀ x, a'.LiveAt x ↔ a.LiveAt x ∧ x ∉ hs.map f.pointer) : (f.clear hs).Owned a' := by
  have hnull : Address.isAllocated Address.null = false := rfl
  constructor
  · intro x
    rw [hlive, ho.live_iff]
    constructor
    · rintro ⟨⟨hx, h, rfl⟩, hout⟩
      exact ⟨hx, h, if_neg fun hmem => hout (List.mem_map_of_mem hmem)⟩
    · rintro ⟨hx, h, hptr⟩
      dsimp only [Files.clear] at hptr
      split_ifs at hptr with hmem
      · rw [← hptr, hnull] at hx
        cases hx
      · -- A block that is still held was held by a holder that is not cleared, and by no other.
        refine ⟨⟨hx, h, hptr⟩, fun hout => ?_⟩
        obtain ⟨h', hmem', hptr'⟩ := List.mem_map.mp hout
        rw [ho.unique h h' (by rw [hptr]; exact hx) (hptr.trans hptr'.symm)] at hmem
        exact hmem hmem'
  · intro h₁ h₂ hx heq
    dsimp only [Files.clear] at hx heq
    split_ifs at hx heq
    · rw [hnull] at hx
      cases hx
    · rw [hnull] at hx
      cases hx
    · rw [heq, hnull] at hx
      cases hx
    · exact ho.unique h₁ h₂ hx heq

end Files

/-! ## What the filesystem promises -/

/-- How the files are read off what a filesystem keeps for itself, and when that is in order. -/
structure Ledger (σ : Type) where
  /-- The files. -/
  files : σ → Files
  /-- Whether what is kept is in order. -/
  Valid : σ → Prop

namespace Ledger

variable {σ α : Type}

/-- A world in order: its books agree with each other, and its live blocks are owned. -/
structure Good (L : Ledger σ) (w : World σ) : Prop where
  /-- The area is sound. -/
  sound : w.area.Sound
  /-- What the filesystem keeps is in order. -/
  valid : L.Valid w.host
  /-- The live blocks are owned. -/
  owned : (L.files w.host).Owned w.area

/-- The area and the files are the same in two worlds. -/
structure Same (L : Ledger σ) (w w' : World σ) : Prop where
  /-- The area is the same. -/
  area : w'.area = w.area
  /-- The files are the same. -/
  files : L.files w'.host = L.files w.host
  /-- What the filesystem keeps stays in order. -/
  valid : L.Valid w'.host

variable {L : Ledger σ} {w w₁ w' : World σ}

/-- A world in order is the same as itself. -/
theorem Same.refl (hw : L.Good w) : L.Same w w := ⟨rfl, rfl, hw.valid⟩

/-- Worlds that are the same as a third are the same. -/
theorem Same.trans (h : L.Same w w₁) (h' : L.Same w₁ w') : L.Same w w' :=
  ⟨h'.area.trans h.area, h'.files.trans h.files, h'.valid⟩

/-- A world that is the same as one in order is in order. -/
theorem Same.good (h : L.Same w w') (hw : L.Good w) : L.Good w' where
  sound := by
    rw [h.area]
    exact hw.sound
  valid := h.valid
  owned := by
    rw [h.area, h.files]
    exact hw.owned

/-- An operation that changes neither the area nor the files, and tells something of the files. -/
def Looks (L : Ledger σ) (m : Act σ α) (tells : Files → α → Prop) : Prop :=
  ∀ ⦃w r w'⦄, L.Good w → m w = .ok (r, w') → L.Same w w' ∧ tells (L.files w.host) r

/-- What becomes of a world when the block of a page is given a new address. -/
inductive Placed (L : Ledger σ) (key : PageKey) (w : World σ) : Outcome Address → World σ → Prop
  /-- It fails without effect. -/
  | refused {status : Status} {w' : World σ} (same : L.Same w w') : Placed L key w (.error status) w'
  /-- A block is written, a holder of the page is pointed there, and the block it had is dropped. -/
  | moved {new : Address} {w' : World σ} (h : Holder) (page : (L.files w.host).key h = key)
      (replaced : w.area.Replaced ((L.files w.host).pointer h) new w'.area)
      (files : L.files w'.host = (L.files w.host).repoint h new) (valid : L.Valid w'.host) :
      Placed L key w (.ok new) w'

/-- What becomes of a world when the blocks of a page are released. -/
inductive Punched (L : Ledger σ) (key : PageKey) (w : World σ) : Outcome Unit → World σ → Prop
  /-- It fails without effect. -/
  | refused {status : Status} {w' : World σ} (same : L.Same w w') : Punched L key w (.error status) w'
  /-- Holders of the page are cleared, and the blocks they had are dropped. -/
  | released {w' : World σ} (hs : List Holder) (page : ∀ h ∈ hs, (L.files w.host).key h = key)
      (dropped : w.area.Dropped (hs.map (L.files w.host).pointer) w'.area)
      (files : L.files w'.host = (L.files w.host).clear hs) (valid : L.Valid w'.host) :
      Punched L key w (.ok ()) w'

variable {key : PageKey}

/-- What is placed from a world that is the same is placed. -/
theorem Same.placed {r : Outcome Address} (h : L.Same w w₁) (hplaced : L.Placed key w₁ r w') :
    L.Placed key w r w' := by
  cases hplaced with
  | refused same => exact .refused (h.trans same)
  | moved holder page replaced files valid =>
    rw [h.files] at page replaced files
    rw [h.area] at replaced
    exact .moved holder page replaced files valid

/-- What is punched from a world that is the same is punched. -/
theorem Same.punched {r : Outcome Unit} (h : L.Same w w₁) (hpunched : L.Punched key w₁ r w') :
    L.Punched key w r w' := by
  cases hpunched with
  | refused same => exact .refused (h.trans same)
  | released hs page dropped files valid =>
    rw [h.files] at page dropped files
    rw [h.area] at dropped
    exact .released hs page dropped files valid

/-- An operation that gives the block of a page a new address or fails without effect. -/
def Places (L : Ledger σ) (m : Act σ (Outcome Address)) (key : PageKey) : Prop :=
  ∀ ⦃w r w'⦄, L.Good w → m w = .ok (r, w') → L.Placed key w r w'

/-- An operation that clears slots of a page and drops their blocks or fails without effect. -/
def Punches (L : Ledger σ) (m : Act σ (Outcome Unit)) (key : PageKey) : Prop :=
  ∀ ⦃w r w'⦄, L.Good w → m w = .ok (r, w') → L.Punched key w r w'

end Ledger

/-- What collection relies on of a filesystem. Every lookup may fail, and summaries may say
anything. -/
structure Backend.Contract {σ : Type} (b : Backend σ) (L : Ledger σ) : Prop where
  /-- Reading a summary changes nothing. -/
  summary : ∀ seg, L.Looks (b.summary seg) fun _ _ => True
  /-- Testing a node number changes nothing. -/
  nodeInRange : ∀ nid, L.Looks (b.nodeInRange nid) fun _ _ => True
  /-- A loaded node has its own page, and its slots hold what the slots of the node hold. -/
  nodePage : ∀ nid, L.Looks (b.nodePage nid) fun f r => ∀ n, r = .ok n →
    n.page.key = .node nid ∧ n.first = f.first nid ∧
      ∀ index, n.pointer index = f.pointer (.slot nid index)
  /-- The address table tells the owner of a node and what the node holds. -/
  nodeInfo : ∀ nid, L.Looks (b.nodeInfo nid) fun f r => ∀ info, r = .ok info →
    info.ino = f.owner nid ∧ info.address = f.pointer (.node nid)
  /-- The inode that is found is the one that was asked for. -/
  inode : ∀ ino, L.Looks (b.inode ino) fun _ r => ∀ inode, r = .ok inode → inode.ino = ino
  /-- An inode that is said to be an orphan is not linked. -/
  isLinked : ∀ inode, L.Looks (b.isLinked inode) fun f r => r = f.linked inode.ino
  /-- The page that is found is that of the file at the index. -/
  dataPage : ∀ inode index, L.Looks (b.dataPage inode index) fun _ r => ∀ page, r = .ok page →
    page.key = .data inode.ino index
  /-- Handing pages over changes nothing. -/
  writeback : ∀ batch, L.Looks (b.writeback batch) fun _ _ => True
  /-- The block of a node is given a new address. -/
  placeNode : ∀ page nid, page.key = .node nid → L.Places (b.placeNode page) (.node nid)
  /-- The block of a file at an index is given a new address. -/
  placeData : ∀ inode page index, page.key = .data inode.ino index →
    L.Places (b.placeData inode page) (.data inode.ino index)
  /-- The block of a file at an index is released. -/
  punch : ∀ inode index, L.Punches (b.punch inode index (index + 1) true) (.data inode.ino index)

end Reclaim
