import Reclaim.Volume.Backend
import Reclaim.Proofs.Migration.Act
import Reclaim.Proofs.Migration.Ledger

/-!
# The volume keeps the contract

The ledger of a volume reads the files off its nodes and inodes. A volume without scripted
interruptions keeps the contract of a backend (`backend_contract`), whichever calls its faults make
fail and whatever its summaries say: entering a call changes the trace and the faults only (`Kept`),
and a block moves by being appended, claimed and released.
-/

namespace Reclaim

namespace Volume

variable {ι ρ : Type}

/-! ## Lists of pairs -/

section

variable {κ α : Type} [DecidableEq κ]

/-- A key is found in the first pair or behind it. -/
theorem lookup_cons_eq_ite (k k' : κ) (x : α) (xs : List (κ × α)) :
    ((k', x) :: xs).lookup k = if k = k' then some x else xs.lookup k := by
  rw [List.lookup_cons]
  by_cases hk : k = k'
  · rw [beq_iff_eq.mpr hk, if_pos hk]
  · rw [beq_eq_false_iff_ne.mpr hk, if_neg hk]

/-- Replacing the value of a key changes what is found for that key only. -/
theorem lookup_assign (k k' : κ) (x : α) (xs : List (κ × α)) :
    (assign k x xs).lookup k' = if k' = k then some x else xs.lookup k' := by
  induction xs with
  | nil => exact lookup_cons_eq_ite k' k x []
  | cons p xs ih =>
    obtain ⟨k₁, y⟩ := p
    unfold assign
    split_ifs with hk₁ hk hk
    · rw [lookup_cons_eq_ite, if_pos hk]
    · rw [lookup_cons_eq_ite, lookup_cons_eq_ite, hk₁, if_neg hk, if_neg hk]
    · rw [lookup_cons_eq_ite, ih, if_pos hk, if_neg (by rw [hk]; exact Ne.symm hk₁)]
    · rw [lookup_cons_eq_ite, lookup_cons_eq_ite, ih, if_neg hk]

/-- Replacing the value of a key that is there leaves the keys as they are. -/
theorem map_fst_assign {k : κ} {x y : α} {xs : List (κ × α)} (h : xs.lookup k = some y) :
    (assign k x xs).map Prod.fst = xs.map Prod.fst := by
  induction xs with
  | nil => cases h
  | cons p xs ih =>
    obtain ⟨k₁, z⟩ := p
    unfold assign
    split_ifs with hk₁
    · rw [List.map_cons, List.map_cons, hk₁]
    · rw [lookup_cons_eq_ite, if_neg (Ne.symm hk₁)] at h
      rw [List.map_cons, List.map_cons, ih h]

/-- What a list of pairs with distinct keys has is found. -/
theorem lookup_of_mem {k : κ} {x : α} {xs : List (κ × α)} (hkeys : (xs.map Prod.fst).Nodup)
    (h : (k, x) ∈ xs) : xs.lookup k = some x := by
  induction xs with
  | nil => cases h
  | cons p xs ih =>
    rw [List.map_cons, List.nodup_cons] at hkeys
    rcases List.mem_cons.mp h with rfl | hmem
    · exact List.lookup_cons_self
    · rw [lookup_cons_eq_ite, if_neg, ih hkeys.2 hmem]
      rintro rfl
      exact hkeys.1 (List.mem_map.mpr ⟨_, hmem, rfl⟩)

end

/-! ## The ledger of a volume -/

/-- The files of a volume. A node that does not exist holds nothing. -/
def files (v : Volume ι ρ) : Files where
  pointer
    | .node nid => ((v.node? nid).map Node.address).getD Address.null
    | .slot nid index => ((v.node? nid).bind (·.slots[index]?)).getD Address.null
  owner nid := ((v.node? nid).map Node.ino).getD 0
  first nid := ((v.node? nid).map Node.first).getD 0
  linked ino := (v.inodes.lookup ino).getD false

/-- A volume in order, with no interruption scripted. -/
structure Valid (v : Volume ι ρ) : Prop where
  /-- No call is interrupted. -/
  uninterrupted : v.interruptions = []
  /-- No two nodes have the same number. -/
  distinct : (v.nodes.map Prod.fst).Nodup
  /-- Each node has its own page. -/
  node_page : ∀ nid n, v.node? nid = some n → n.page.key = .node nid
  /-- Each block of a file has its own page. -/
  file_page : ∀ ino index page, v.pages.lookup (ino, index) = some page → page.key = .data ino index

/-- The ledger of a volume. -/
def ledger : Ledger (Volume ι ρ) := ⟨files, Valid⟩

variable {v v' : Volume ι ρ} {nid : ℕ} {n : Node}

/-- Pointing a node at a block points the holder of the node there. -/
theorem files_setNode_address (hn : v.node? nid = some n) (addr : Address) :
    (v.setNode nid { n with address := addr }).files = v.files.repoint (.node nid) addr := by
  have hfind : ∀ nid', (v.setNode nid { n with address := addr }).node? nid' =
      if nid' = nid then some { n with address := addr } else v.node? nid' :=
    fun nid' => lookup_assign nid nid' _ v.nodes
  unfold files Files.repoint
  congr 1
  · funext h
    cases h with
    | node nid' =>
      dsimp only
      rw [hfind]
      by_cases h : nid' = nid <;> simp [h]
    | slot nid' index =>
      dsimp only
      rw [hfind]
      by_cases h : nid' = nid <;> simp [h, hn]
  · funext nid'
    rw [hfind]
    by_cases h : nid' = nid <;> simp [h, hn]
  · funext nid'
    rw [hfind]
    by_cases h : nid' = nid <;> simp [h, hn]

/-- Pointing a slot of a node at a block points the holder of the slot there. -/
theorem files_setNode_slot (hn : v.node? nid = some n) {index : ℕ} (hindex : index < n.slots.size)
    (addr : Address) :
    (v.setNode nid { n with slots := n.slots.setIfInBounds index addr }).files =
      v.files.repoint (.slot nid index) addr := by
  have hfind : ∀ nid',
      (v.setNode nid { n with slots := n.slots.setIfInBounds index addr }).node? nid' =
        if nid' = nid then some { n with slots := n.slots.setIfInBounds index addr }
        else v.node? nid' :=
    fun nid' => lookup_assign nid nid' _ v.nodes
  unfold files Files.repoint
  congr 1
  · funext h
    cases h with
    | node nid' =>
      dsimp only
      rw [hfind]
      by_cases h : nid' = nid <;> simp [h, hn]
    | slot nid' index' =>
      dsimp only
      rw [hfind]
      by_cases h : nid' = nid
      · by_cases hi : index' = index
        · simp [h, hi, hindex]
        · simp [h, hi, hn, Ne.symm hi]
      · simp [h]
  · funext nid'
    rw [hfind]
    by_cases h : nid' = nid <;> simp [h, hn]
  · funext nid'
    rw [hfind]
    by_cases h : nid' = nid <;> simp [h, hn]

/-- A volume stays in order when a node of it is replaced by one with the same page. -/
theorem Valid.setNode (hv : v.Valid) (hn : v.node? nid = some n) {n' : Node}
    (hpage : n'.page = n.page) : (v.setNode nid n').Valid where
  uninterrupted := hv.uninterrupted
  distinct := by
    show ((assign nid n' v.nodes).map Prod.fst).Nodup
    rw [map_fst_assign hn]
    exact hv.distinct
  node_page nid' m hm := by
    have hfind : (v.setNode nid n').node? nid' = if nid' = nid then some n' else v.node? nid' :=
      lookup_assign nid nid' n' v.nodes
    rw [hfind] at hm
    split_ifs at hm with h
    · cases hm
      rw [h, hpage]
      exact hv.node_page nid n hn
    · exact hv.node_page nid' m hm
  file_page := hv.file_page

/-! ## Entering a call -/

/-- An operation goes on with what it reads. -/
theorem read_bind {α β : Type} (f : Volume ι ρ → α) (g : α → Act (Volume ι ρ) β)
    (w : World (Volume ι ρ)) : (read f >>= g) w = g (f w.host) w := rfl

/-- One volume comes from another without a node, an inode or a page being touched. -/
structure Kept (v v' : Volume ι ρ) : Prop where
  /-- The nodes are the same. -/
  nodes : v'.nodes = v.nodes
  /-- The inodes are the same. -/
  inodes : v'.inodes = v.inodes
  /-- The pages are the same. -/
  pages : v'.pages = v.pages
  /-- The interruptions are the same. -/
  interruptions : v'.interruptions = v.interruptions

/-- The same nodes are found. -/
theorem Kept.node? (h : v.Kept v') (nid : ℕ) : v'.node? nid = v.node? nid := by
  unfold Volume.node?
  rw [h.nodes]

/-- The files are the same. -/
theorem Kept.files (h : v.Kept v') : v'.files = v.files := by
  unfold Volume.files Volume.node?
  rw [h.nodes, h.inodes]

/-- The volume stays in order. -/
theorem Kept.valid (h : v.Kept v') (hv : v.Valid) : v'.Valid where
  uninterrupted := h.interruptions.trans hv.uninterrupted
  distinct := by
    rw [h.nodes]
    exact hv.distinct
  node_page nid n hn := hv.node_page nid n (by rw [← h.node?, hn])
  file_page ino index page hpage := hv.file_page ino index page (by rw [← h.pages, hpage])

/-- What is kept in two steps is kept. -/
theorem Kept.trans {v₁ : Volume ι ρ} (h : v.Kept v₁) (h' : v₁.Kept v') : v.Kept v' where
  nodes := h'.nodes.trans h.nodes
  inodes := h'.inodes.trans h.inodes
  pages := h'.pages.trans h.pages
  interruptions := h'.interruptions.trans h.interruptions

/-- Recording a claim touches the summaries only. -/
theorem kept_record (v : Volume ι ρ) (g : Geometry) (addr : Address) (kind : BlockKind)
    (sum : Summary) : v.Kept (v.record g addr kind sum) := by
  unfold record
  split
  · exact ⟨rfl, rfl, rfl, rfl⟩
  · exact ⟨rfl, rfl, rfl, rfl⟩

variable {handler : ι → Act (Volume ι ρ) ρ} {w w' : World (Volume ι ρ)} {c : Call}

/-- A call that no interruption is waiting for is traced, and that is all. -/
theorem enter_eq_ok (hv : w.host.Valid) {r : Unit} (h : enter handler c w = .ok (r, w')) :
    ∃ v', w' = { w with host := v' } ∧ w.host.Kept v' := by
  refine ⟨w'.host, ?_⟩
  unfold enter at h
  obtain ⟨_, w₁, hnote, h₁⟩ := Act.bind_eq_ok.mp h
  cases hnote
  obtain ⟨due, w₂, hdue, h₂⟩ := Act.bind_eq_ok.mp h₁
  cases hdue
  dsimp only at h₂
  rw [hv.uninterrupted] at h₂
  obtain ⟨_, w₃, hleft, h₃⟩ := Act.bind_eq_ok.mp h₂
  cases hleft
  cases h₃
  exact ⟨rfl, ⟨rfl, rfl, rfl, hv.uninterrupted.symm⟩⟩

/-- A call that can fail is traced and may use up a fault, and that is all. -/
theorem attempt_eq_ok (hv : w.host.Valid) {r : Option Status}
    (h : attempt handler c w = .ok (r, w')) : ∃ v', w' = { w with host := v' } ∧ w.host.Kept v' := by
  unfold attempt at h
  obtain ⟨_, w₁, henter, h₁⟩ := Act.bind_eq_ok.mp h
  obtain ⟨v₁, rfl, hkept⟩ := enter_eq_ok hv henter
  rw [read_bind] at h₁
  cases h₁
  exact ⟨_, rfl, hkept.trans ⟨rfl, rfl, rfl, rfl⟩⟩

/-- A call that can fail either fails without effect or does its work, and is traced either way. -/
theorem serve_eq_ok {α : Type} (hv : w.host.Valid) {work : Act (Volume ι ρ) (Outcome α)}
    {r : Outcome α} (h : serve handler c work w = .ok (r, w')) :
    ∃ v', w.host.Kept v' ∧ ((∃ status, r = .error status ∧ w' = { w with host := v' }) ∨
      work { w with host := v' } = .ok (r, w')) := by
  unfold serve at h
  obtain ⟨failed, w₁, hattempt, h₁⟩ := Act.bind_eq_ok.mp h
  obtain ⟨v', rfl, hkept⟩ := attempt_eq_ok hv hattempt
  refine ⟨v', hkept, ?_⟩
  cases failed with
  | some status =>
    cases h₁
    exact Or.inl ⟨status, rfl, rfl⟩
  | none => exact Or.inr h₁

/-! ## Looking things up -/

/-- A call that reads the volume tells what is read there. -/
theorem looks_serve {α : Type} (c : Call) (f : Volume ι ρ → Outcome α) {tells : Files → α → Prop}
    (htells : ∀ v : Volume ι ρ, v.Valid → ∀ x, f v = .ok x → tells v.files x) :
    ledger.Looks (serve handler c (read f)) fun fs r => ∀ x, r = .ok x → tells fs x := by
  intro w r w' hw h
  obtain ⟨v', hkept, ⟨status, rfl, rfl⟩ | h₁⟩ := serve_eq_ok hw.valid h
  · refine ⟨⟨rfl, hkept.files, hkept.valid hw.valid⟩, fun x hx => ?_⟩
    cases hx
  · cases h₁
    refine ⟨⟨rfl, hkept.files, hkept.valid hw.valid⟩, fun x hx => ?_⟩
    rw [show ledger.files w.host = v'.files from hkept.files.symm]
    exact htells v' (hkept.valid hw.valid) x hx

/-- Finding or making the page of a file touches no node, and the page is that of the file. -/
theorem filePage_eq_ok (hv : w.host.Valid) {ino index : ℕ} {page : Page}
    (h : filePage ino index w = .ok (page, w')) :
    ledger.Same w w' ∧ w'.host.nodes = w.host.nodes ∧ page.key = .data ino index := by
  unfold filePage at h
  rw [read_bind] at h
  cases hpage : w.host.pages.lookup (ino, index) with
  | some known =>
    rw [hpage] at h
    cases h
    exact ⟨⟨rfl, rfl, hv⟩, rfl, hv.file_page ino index _ hpage⟩
  | none =>
    rw [hpage] at h
    cases h
    -- The new page is put behind those that are there, so it is found for its own index alone.
    refine ⟨⟨rfl, rfl, ⟨hv.uninterrupted, hv.distinct, hv.node_page, ?_⟩⟩, rfl, rfl⟩
    intro ino' index' page hlookup
    dsimp only at hlookup
    rw [List.lookup_append, List.lookup_cons] at hlookup
    cases hold : w.host.pages.lookup (ino', index') with
    | some old =>
      rw [hold] at hlookup
      cases hlookup
      exact hv.file_page ino' index' _ hold
    | none =>
      rw [hold] at hlookup
      cases hkey : (ino', index') == (ino, index) with
      | false =>
        rw [hkey] at hlookup
        cases hlookup
      | true =>
        rw [hkey] at hlookup
        cases beq_iff_eq.mp hkey
        cases hlookup
        rfl

/-- The page of a file that is found or made is that of the file. -/
theorem looks_filePage (ino index : ℕ) :
    ledger.Looks (filePage ino index : Act (Volume ι ρ) Page) fun _ page =>
      page.key = .data ino index := by
  intro w r w' hw h
  obtain ⟨hsame, -, hkey⟩ := filePage_eq_ok hw.valid h
  exact ⟨hsame, hkey⟩

/-! ## Moving and releasing blocks -/

/-- Appending a block allocates it at the time of the volume. -/
theorem append_eq_ok {log : Option Log} {r : Outcome Address} (h : append log w = .ok (r, w')) :
    ∃ area, w.area.allocate log w.host.clock = .ok (r, area) ∧ w' = { w with area } := by
  unfold append at h
  obtain ⟨clock, w₁, hclock, h₁⟩ := Act.bind_eq_ok.mp h
  cases hclock
  exact Act.onArea_eq_ok.mp h₁

/-- What is found for the index of a file is a node of the file, and the index is that of a slot. -/
theorem locate?_spec (hv : v.Valid) {ino index : ℕ} (h : v.locate? ino index = some (nid, n)) :
    v.node? nid = some n ∧ n.ino = ino ∧ n.first ≤ index ∧ index < n.first + n.slots.size := by
  have hfound := List.find?_some h
  simp only [Node.covers, Bool.and_eq_true, decide_eq_true_iff] at hfound
  exact ⟨lookup_of_mem hv.distinct (List.mem_of_find?_eq_some h), hfound⟩

/-- Pointing a slot elsewhere stops unless the node has the slot. -/
theorem setSlot_eq_ok {index : ℕ} {addr : Address} {r : Unit} (hn : w.host.node? nid = some n)
    (h : setSlot nid index addr w = .ok (r, w')) :
    index < n.slots.size ∧ w' = { w with
      host := w.host.setNode nid { n with slots := n.slots.setIfInBounds index addr } } := by
  unfold setSlot at h
  rw [hn] at h
  dsimp only at h
  split_ifs at h with hindex
  cases h
  exact ⟨hindex, rfl⟩

/-- Appends a block, claims it and releases an old one, and then does what comes last. Nodes and the
blocks of files are both moved like this. -/
def replaceBlock (log : Option Log) (kind : BlockKind) (sum : Summary) (old : Address)
    (last : Address → Act (Volume ι ρ) (Outcome Address)) : Act (Volume ι ρ) (Outcome Address) := do
  match ← append log with
  | .error status => return .error status
  | .ok addr =>
    claim addr kind sum
    match ← release old with
    | .error status => return .error status
    | .ok () => last addr

/-- Replacing the block that a holder holds moves it, if what comes last points the holder at the new
block. The old block is live, so its release is not refused. -/
theorem placed_of_replaceBlock (hw : ledger.Good w) {h : Holder} {log : Option Log}
    {kind : BlockKind} {sum : Summary} {last : Address → Act (Volume ι ρ) (Outcome Address)}
    {r : Outcome Address}
    (hlast : ∀ addr w₁ r w', w.host.Kept w₁.host → last addr w₁ = .ok (r, w') →
      r = .ok addr ∧ w'.area = w₁.area ∧ w'.host.Valid ∧
        w'.host.files = w.host.files.repoint h addr)
    (hrun : replaceBlock log kind sum (w.host.files.pointer h) last w = .ok (r, w')) :
    ledger.Placed (w.host.files.key h) w r w' := by
  unfold replaceBlock at hrun
  obtain ⟨written, w₁, happend, h₁⟩ := Act.bind_eq_ok.mp hrun
  obtain ⟨a₁, hwrite, hw₁⟩ := append_eq_ok happend
  subst w₁
  cases written with
  | error status =>
    cases h₁
    rw [hw.sound.eq_of_refused hwrite]
    exact .refused (.refl hw)
  | ok addr =>
    obtain ⟨_, w₂, hclaim, h₂⟩ := Act.bind_eq_ok.mp h₁
    cases hclaim
    obtain ⟨released, w₃, hrelease, h₃⟩ := Act.bind_eq_ok.mp h₂
    obtain ⟨a₂, hdrop, hw₃⟩ := Act.onArea_eq_ok.mp hrelease
    subst w₃
    obtain rfl := Area.invalidate_accepts hdrop fun hptr =>
      ((hw.sound.wrote_of_allocate hwrite).live _).mpr (Or.inl (hw.owned.live hptr))
    obtain ⟨rfl, harea, hvalid, hfiles⟩ :=
      hlast addr _ r w' (kept_record w.host a₁.geometry addr kind sum) h₃
    refine .moved h rfl ?_ hfiles hvalid
    rw [harea]
    exact .written hwrite hdrop

/-- Writing a node to a log gives its block a new address or fails without effect. -/
theorem places_moveNode (nid : ℕ) (log : Option Log) :
    ledger.Places (moveNode nid log : Act (Volume ι ρ) _) (.node nid) := by
  intro w r w' hw h
  unfold moveNode at h
  rw [read_bind] at h
  cases hn : w.host.node? nid with
  | none =>
    rw [hn] at h
    cases h
    exact .refused (.refl hw)
  | some n =>
    have hptr : w.host.files.pointer (.node nid) = n.address := by
      simp [files, hn]
    rw [hn] at h
    dsimp only at h
    rw [← hptr] at h
    refine placed_of_replaceBlock (h := .node nid) hw ?_ h
    intro addr w₁ r w' hkept hset
    cases hset
    have hn' := (hkept.node? nid).trans hn
    refine ⟨rfl, rfl, (hkept.valid hw.valid).setNode hn' rfl, ?_⟩
    rw [← hkept.files]
    exact files_setNode_address hn' addr

/-- A slot that covers an index of a file holds a block of the page of the file at the index. -/
theorem key_slot (hn : v.node? nid = some n) {ino index : ℕ} (hino : n.ino = ino)
    (hfirst : n.first ≤ index) : v.files.key (.slot nid (index - n.first)) = .data ino index := by
  simp [files, Files.key, hn, hino, Nat.add_sub_cancel' hfirst]

/-- A slot of a node holds what the node has there. -/
theorem pointer_slot (hn : v.node? nid = some n) (slot : ℕ) :
    v.files.pointer (.slot nid slot) = n.slots[slot]?.getD Address.null := by
  simp [files, hn]

/-- Writing the block of a file to a log gives it a new address or fails without effect. -/
theorem places_moveData (ino index : ℕ) (log : Option Log) :
    ledger.Places (moveData ino index log : Act (Volume ι ρ) _) (.data ino index) := by
  intro w r w' hw h
  unfold moveData at h
  rw [read_bind] at h
  cases hlocate : w.host.locate? ino index with
  | none =>
    rw [hlocate] at h
    cases h
    exact .refused (.refl hw)
  | some located =>
    obtain ⟨nid, n⟩ := located
    obtain ⟨hn, hino, hfirst, -⟩ := locate?_spec hw.valid hlocate
    rw [hlocate] at h
    dsimp only at h
    rw [← pointer_slot hn] at h
    rw [← key_slot hn hino hfirst]
    refine placed_of_replaceBlock (h := .slot nid (index - n.first)) hw ?_ h
    intro addr w₁ r w' hkept hrun
    have hn' := (hkept.node? nid).trans hn
    obtain ⟨_, w₂, hset, h₂⟩ := Act.bind_eq_ok.mp hrun
    obtain ⟨hindex, hw₂⟩ := setSlot_eq_ok hn' hset
    subst w₂
    cases h₂
    refine ⟨rfl, rfl, (hkept.valid hw.valid).setNode hn' rfl, ?_⟩
    rw [← hkept.files]
    exact files_setNode_slot hn' hindex addr

/-- Releasing one index of a file clears the slot of the index and drops its block, or fails without
effect. -/
theorem punches_punch (ino index : ℕ) :
    ledger.Punches (punch ino 1 index : Act (Volume ι ρ) _) (.data ino index) := by
  intro w r w' hw h
  unfold punch at h
  rw [read_bind] at h
  cases hlocate : w.host.locate? ino index with
  | none =>
    rw [hlocate] at h
    cases h
    exact .refused (.refl hw)
  | some located =>
    obtain ⟨nid, n⟩ := located
    obtain ⟨hn, hino, hfirst, -⟩ := locate?_spec hw.valid hlocate
    rw [hlocate] at h
    obtain ⟨released, w₂, hrelease, h₂⟩ := Act.bind_eq_ok.mp h
    obtain ⟨a₁, hdrop, hw₂⟩ := Act.onArea_eq_ok.mp hrelease
    subst w₂
    rw [← pointer_slot hn] at hdrop
    -- What the slot holds is live or no block at all, so its release is not refused.
    obtain rfl := Area.invalidate_accepts hdrop hw.owned.live
    obtain ⟨_, w₃, hset, h₃⟩ := Act.bind_eq_ok.mp h₂
    obtain ⟨hindex, hw₃⟩ := setSlot_eq_ok (w := { w with area := a₁ }) hn hset
    subst w₃
    cases h₃
    refine .released [.slot nid (index - n.first)] ?_ (.cons hdrop (.nil _)) ?_
      (hw.valid.setNode hn rfl)
    · intro h hmem
      rw [List.mem_singleton.mp hmem]
      exact key_slot hn hino hfirst
    · refine (files_setNode_slot hn hindex Address.null).trans ?_
      simp [Files.repoint, Files.clear, ledger]

/-! ## The contract -/

/-- A call that places a block where its work does. -/
theorem places_serve {c : Call} {work : Act (Volume ι ρ) (Outcome Address)} {key : PageKey}
    (hwork : ledger.Places work key) : ledger.Places (serve handler c work) key := by
  intro w r w' hw h
  obtain ⟨v', hkept, hserve⟩ := serve_eq_ok hw.valid h
  have hsame : ledger.Same w { w with host := v' } := ⟨rfl, hkept.files, hkept.valid hw.valid⟩
  rcases hserve with ⟨status, rfl, rfl⟩ | h₁
  · exact .refused hsame
  · exact hsame.placed (hwork (hsame.good hw) h₁)

/-- A call that releases a block where its work does. -/
theorem punches_serve {c : Call} {work : Act (Volume ι ρ) (Outcome Unit)} {key : PageKey}
    (hwork : ledger.Punches work key) : ledger.Punches (serve handler c work) key := by
  intro w r w' hw h
  obtain ⟨v', hkept, hserve⟩ := serve_eq_ok hw.valid h
  have hsame : ledger.Same w { w with host := v' } := ⟨rfl, hkept.files, hkept.valid hw.valid⟩
  rcases hserve with ⟨status, rfl, rfl⟩ | h₁
  · exact .refused hsame
  · exact hsame.punched (hwork (hsame.good hw) h₁)

/-- The volume keeps the contract, whoever handles interruptions. -/
theorem backend_contract (handler : ι → Act (Volume ι ρ) ρ) :
    (backend handler).Contract ledger where
  summary seg := by
    intro w r w' hw h
    have hlooks : ledger.Looks (serve handler (.summary seg w.collector.progress.phase)
        (read fun v => orNotFound (v.summaries.lookup seg))) fun _ r => ∀ x, r = .ok x → True :=
      looks_serve _ _ fun _ _ _ _ => trivial
    exact ⟨(hlooks hw h).1, trivial⟩
  nodeInRange nid := by
    intro w r w' hw h
    obtain ⟨failed, w₁, hattempt, h₁⟩ := Act.bind_eq_ok.mp h
    obtain ⟨v', rfl, hkept⟩ := attempt_eq_ok hw.valid hattempt
    refine ⟨?_, trivial⟩
    cases failed with
    | some status =>
      cases h₁
      exact ⟨rfl, hkept.files, hkept.valid hw.valid⟩
    | none =>
      cases h₁
      exact ⟨rfl, hkept.files, hkept.valid hw.valid⟩
  nodePage nid := by
    refine looks_serve _ _ fun v hv node h => ?_
    cases hn : v.node? nid with
    | none =>
      rw [hn] at h
      cases h
    | some n =>
      rw [hn] at h
      cases h
      exact ⟨hv.node_page nid n hn, by simp [files, hn],
        fun index => by simp [files, hn, NodePage.pointer]⟩
  nodeInfo nid := by
    refine looks_serve _ _ fun v hv info h => ?_
    cases hn : v.node? nid with
    | none =>
      rw [hn] at h
      cases h
    | some n =>
      rw [hn] at h
      cases h
      simp [files, hn]
  inode ino := by
    refine looks_serve _ _ fun v hv inode h => ?_
    cases hlinked : v.inodes.lookup ino with
    | none =>
      rw [hlinked] at h
      cases h
    | some linked =>
      rw [hlinked] at h
      cases h
      rfl
  isLinked inode := by
    intro w r w' hw h
    obtain ⟨_, w₁, henter, h₁⟩ := Act.bind_eq_ok.mp h
    obtain ⟨v', rfl, hkept⟩ := enter_eq_ok hw.valid henter
    cases h₁
    refine ⟨⟨rfl, hkept.files, hkept.valid hw.valid⟩, ?_⟩
    show (v'.inodes.lookup inode.ino).getD false = (w.host.inodes.lookup inode.ino).getD false
    rw [hkept.inodes]
  dataPage inode index := by
    intro w r w' hw h
    obtain ⟨v', hkept, ⟨status, rfl, rfl⟩ | h₁⟩ := serve_eq_ok hw.valid h
    · refine ⟨⟨rfl, hkept.files, hkept.valid hw.valid⟩, fun page hpage => ?_⟩
      cases hpage
    · have hsame : ledger.Same w { w with host := v' } := ⟨rfl, hkept.files, hkept.valid hw.valid⟩
      obtain ⟨page, w₂, hfile, h₂⟩ := Act.bind_eq_ok.mp h₁
      obtain ⟨hsame', hkey⟩ := looks_filePage inode.ino index (hsame.good hw) hfile
      cases h₂
      refine ⟨hsame.trans hsame', fun page' hpage' => ?_⟩
      cases hpage'
      exact hkey
  writeback batch := by
    intro w r w' hw h
    obtain ⟨_, w₁, henter, h₁⟩ := Act.bind_eq_ok.mp h
    obtain ⟨v', rfl, hkept⟩ := enter_eq_ok hw.valid henter
    cases h₁
    exact ⟨⟨rfl, hkept.files, hkept.valid hw.valid⟩, trivial⟩
  placeNode page nid hkey := by
    refine places_serve ?_
    unfold placeNode
    rw [hkey]
    exact places_moveNode nid _
  placeData inode page index hkey := by
    refine places_serve fun w r w' hw h => ?_
    unfold placeData at h
    rw [hkey] at h
    obtain ⟨cold, w₁, hmark, h₁⟩ := Act.bind_eq_ok.mp h
    cases hmark
    have hsame : ledger.Same w { w with pages := (w.pages.mark page .cold false).2 } :=
      ⟨rfl, rfl, hw.valid⟩
    exact hsame.placed (places_moveData inode.ino index _ (hsame.good hw) h₁)
  punch inode index := by
    refine punches_serve ?_
    rw [Nat.add_sub_cancel_left]
    exact punches_punch inode.ino index

/-! ## A volume of one file -/

/-- A volume of one file, with one node and one block. The summary of segment 1 claims its first
block for the file. -/
def oneFile (node block : Address) : Volume Empty Unit :=
  { Volume.empty 1 with
    nodes := [(1, ⟨1, node, 0, 0, #[block], ⟨0, .node 1⟩⟩)]
    inodes := [(1, true)]
    summaries := [(1, ⟨.data, #[⟨1, 0, 0⟩, {}]⟩)]
    lastNid := 1 }

/-- The volume of one file is in order. -/
theorem valid_oneFile (node block : Address) : (oneFile node block).Valid where
  uninterrupted := rfl
  distinct := List.nodup_singleton _
  node_page nid n hn := by
    have hfound : List.lookup nid (oneFile node block).nodes = some n := hn
    unfold oneFile at hfound
    rw [lookup_cons_eq_ite] at hfound
    split_ifs at hfound with hnid
    · cases hfound
      rw [hnid]
    · cases hfound
  file_page _ _ _ h := by cases h

/-- The blocks of the file are owned once they have been written. -/
theorem owned_oneFile {a₀ a₁ a₂ : Area} {node block : Address} (hdead : ∀ x, ¬a₀.LiveAt x)
    (ha₀ : a₀.Sound) (hblock : a₀.Wrote block a₁) (hnode : a₁.Wrote node a₂) :
    (oneFile node block).files.Owned a₂ := by
  have hfind : ∀ node block nid, (oneFile node block).node? nid =
      if nid = 1 then some ⟨1, node, 0, 0, #[block], ⟨0, .node 1⟩⟩ else none :=
    fun node block nid => lookup_cons_eq_ite nid 1 _ []
  have hempty : (oneFile Address.null Address.null).files.Owned a₀ := by
    refine Files.owned_of_dead hdead fun h => ?_
    cases h with
    | node nid =>
      simp only [files, hfind]
      split_ifs <;> rfl
    | slot nid index =>
      simp only [files, hfind]
      split_ifs
      · cases index <;> simp
      · rfl
  -- The file begins with nothing, and is pointed at its block and then at its node.
  have hone := hempty.repoint (h := .slot 1 0) ha₀ hblock.moved
  rw [← files_setNode_slot (hfind _ _ 1) Nat.one_pos] at hone
  change (oneFile Address.null block).files.Owned a₁ at hone
  have htwo := hone.repoint (h := .node 1) hblock.sound hnode.moved
  rw [← files_setNode_address (hfind _ _ 1)] at htwo
  exact htwo

end Volume

end Reclaim
