import Reclaim.Proofs.Migration.Confined
import Reclaim.Proofs.Volume.Ledger

/-!
# The volume is confined

A volume on which no two nodes of an inode have the slot of one index (`Tiled`) records one block at
most for an index of a file, and releasing the index drops that block. If its indices fit 64 bits as
well, the volume is confined (`backend_confined`): a call on it is traced and fails or does its
work, and it does either.
-/

namespace Reclaim.Volume

variable {ι ρ : Type}

/-- How the nodes of an inode divide the indices of its file. -/
structure Tiled (v : Volume ι ρ) : Prop where
  /-- No two nodes of an inode have the slot of one file index. -/
  apart : ∀ nid n nid' n', v.node? nid = some n → v.node? nid' = some n' → n.ino = n'.ino →
    ∀ index, n.covers index = true → n'.covers index = true → nid = nid'
  /-- The index behind those of a node fits 64 bits. -/
  fits : ∀ nid n, v.node? nid = some n → n.first + n.slots.size < 2 ^ 64

/-- The ledger of a volume in which indices have one slot at most. -/
def tiledLedger : Ledger (Volume ι ρ) := ⟨files, fun v => v.Valid ∧ v.Tiled⟩

variable {v v' : Volume ι ρ} {nid : ℕ} {n : Node}

/-- A slot that holds a block is one of a node. -/
theorem covers_of_allocated {index : ℕ}
    (h : Address.isAllocated (v.files.pointer (.slot nid index)) = true) :
    ∃ n, v.node? nid = some n ∧ v.files.owner nid = n.ino ∧ v.files.first nid = n.first ∧
      n.covers (n.first + index) = true := by
  cases hn : v.node? nid with
  | none =>
    simp only [files, hn, Option.bind_none, Option.getD_none] at h
    cases h
  | some n =>
    rw [pointer_slot hn] at h
    refine ⟨n, rfl, by simp [files, hn], by simp [files, hn], ?_⟩
    by_cases hindex : index < n.slots.size
    · simp [Node.covers, hindex]
    · rw [Array.getElem?_eq_none (Nat.le_of_not_lt hindex)] at h
      cases h

/-- One block at most is held for a page. -/
theorem Tiled.single (hv : v.Tiled) {h h' : Holder} (hkey : v.files.key h = v.files.key h')
    (hptr : Address.isAllocated (v.files.pointer h) = true)
    (hptr' : Address.isAllocated (v.files.pointer h') = true) : h = h' := by
  cases h with
  | node nid =>
    cases h' with
    | node nid' =>
      cases hkey
      rfl
    | slot nid' index' => cases hkey
  | slot nid index =>
    cases h' with
    | node nid' => cases hkey
    | slot nid' index' =>
      obtain ⟨n, hn, hino, hfirst, hcovers⟩ := covers_of_allocated hptr
      obtain ⟨n', hn', hino', hfirst', hcovers'⟩ := covers_of_allocated hptr'
      have hsame : PageKey.data n.ino (n.first + index) =
          PageKey.data n'.ino (n'.first + index') := by
        rw [← hino, ← hfirst, ← hino', ← hfirst']
        exact hkey
      injection hsame with hi hj
      rw [hj] at hcovers
      obtain rfl := hv.apart nid n nid' n' hn hn' hi _ hcovers hcovers'
      cases hn.symm.trans hn'
      rw [Nat.add_left_cancel hj]

/-- The index of a slot that holds a block, and the one behind it, fit 64 bits. -/
theorem Tiled.index_lt (hv : v.Tiled) {index : ℕ}
    (h : Address.isAllocated (v.files.pointer (.slot nid index)) = true) :
    v.files.first nid + index + 1 < 2 ^ 64 := by
  obtain ⟨n, hn, -, hfirst, hcovers⟩ := covers_of_allocated h
  have hfits := hv.fits nid n hn
  simp only [Node.covers, Bool.and_eq_true, decide_eq_true_eq] at hcovers
  rw [hfirst]
  omega

/-- Indices keep their slots while no node is touched. -/
theorem Tiled.of_nodes (hv : v.Tiled) (h : v'.nodes = v.nodes) : v'.Tiled := by
  have hnode : ∀ k, v'.node? k = v.node? k := fun k => by
    unfold node?
    rw [h]
  constructor
  · simp only [hnode]
    exact hv.apart
  · simp only [hnode]
    exact hv.fits

/-- Indices keep their slots when a node gets as many. -/
theorem Tiled.setNode (hv : v.Tiled) (hn : v.node? nid = some n) {slots : Array Address}
    (hsize : slots.size = n.slots.size) : (v.setNode nid { n with slots }).Tiled := by
  -- The node has the same inode and the same indices.
  have hfind : ∀ k m, (v.setNode nid { n with slots }).node? k = some m → ∃ m',
      v.node? k = some m' ∧ m.ino = m'.ino ∧ m.first = m'.first ∧ m.slots.size = m'.slots.size := by
    intro k m hm
    unfold node? Volume.setNode at hm
    rw [lookup_assign] at hm
    split_ifs at hm with hk
    · cases hm
      rw [hk]
      exact ⟨n, hn, rfl, rfl, hsize⟩
    · exact ⟨m, hm, rfl, rfl, rfl⟩
  constructor
  · intro k m k' m' hm hm' hino index hcovers hcovers'
    obtain ⟨m₁, hm₁, hino₁, hfirst₁, hsize₁⟩ := hfind k m hm
    obtain ⟨m₂, hm₂, hino₂, hfirst₂, hsize₂⟩ := hfind k' m' hm'
    unfold Node.covers at hcovers hcovers'
    rw [hfirst₁, hsize₁] at hcovers
    rw [hfirst₂, hsize₂] at hcovers'
    exact hv.apart k m₁ k' m₂ hm₁ hm₂ (by rw [← hino₁, ← hino₂, hino]) index hcovers hcovers'
  · intro k m hm
    obtain ⟨m₁, hm₁, -, hfirst₁, hsize₁⟩ := hfind k m hm
    rw [hfirst₁, hsize₁]
    exact hv.fits k m₁ hm₁

/-! ## Calls are answered -/

variable (handler : ι → Act (Volume ι ρ) ρ) {w : World (Volume ι ρ)}

/-- A call that no interruption is waiting for is entered. -/
theorem exists_enter (hv : w.host.Valid) (c : Call) :
    ∃ v', enter handler c w = .ok ((), { w with host := v' }) ∧ w.host.Kept v' := by
  have hrun : ∃ r w', enter handler c w = .ok (r, w') := by
    show ∃ r w', interrupt handler (Interruption.due c.word w.host.interruptions).1 _ =
      .ok (r, w')
    rw [hv.uninterrupted]
    exact ⟨_, _, rfl⟩
  obtain ⟨r, w', hrun⟩ := hrun
  obtain ⟨v', rfl, hkept⟩ := enter_eq_ok hv hrun
  exact ⟨v', hrun, hkept⟩

/-- A call that can fail is entered, and fails or not. -/
theorem exists_attempt (hv : w.host.Valid) (c : Call) :
    ∃ failed v', attempt handler c w = .ok (failed, { w with host := v' }) ∧ w.host.Kept v' := by
  obtain ⟨v₁, henter, -⟩ := exists_enter handler hv c
  have hrun : ∃ r w', attempt handler c w = .ok (r, w') := by
    unfold attempt
    rw [Act.bind_of_ok henter]
    exact ⟨_, _, rfl⟩
  obtain ⟨failed, w', hrun⟩ := hrun
  obtain ⟨v', rfl, hkept⟩ := attempt_eq_ok hv hrun
  exact ⟨failed, v', hrun, hkept⟩

/-- A call fails without effect or does its work, and is traced either way. -/
theorem exists_serve {α : Type} (hv : w.host.Valid) (c : Call)
    (work : Act (Volume ι ρ) (Outcome α)) :
    ∃ v', w.host.Kept v' ∧ ((∃ status, serve handler c work w =
      .ok (.error status, { w with host := v' })) ∨
        serve handler c work w = work { w with host := v' }) := by
  obtain ⟨failed, v', hattempt, hkept⟩ := exists_attempt handler hv c
  refine ⟨v', hkept, ?_⟩
  unfold serve
  cases failed with
  | some status => exact Or.inl ⟨status, Act.bind_of_ok hattempt _⟩
  | none => exact Or.inr (Act.bind_of_ok hattempt _)

/-- A call that reads the volume is answered, with what is read there unless it fails. -/
theorem exists_read {α : Type} (hv : w.host.Valid) (c : Call) (f : Volume ι ρ → Outcome α) :
    ∃ r v', serve handler c (read f) w = .ok (r, { w with host := v' }) ∧ w.host.Kept v' ∧
      ∀ x, r = .ok x → f v' = .ok x := by
  obtain ⟨v', hkept, ⟨status, hserve⟩ | hserve⟩ := exists_serve handler hv c (read f)
  · exact ⟨_, v', hserve, hkept, nofun⟩
  · exact ⟨_, v', hserve, hkept, fun x hx => hx⟩

/-! ## Lookups -/

/-- What is found is found in a value that is there. -/
theorem orNotFound_eq_ok {α : Type} {o : Option α} {x : α} :
    orNotFound o = .ok x ↔ o = some x := by
  cases o <;> simp [orNotFound]

/-- A volume that is entered is the same to the ledger. -/
theorem Kept.same {v' : Volume ι ρ} (h : w.host.Kept v') (hv : tiledLedger.Valid w.host) :
    tiledLedger.Same w { w with host := v' } :=
  ⟨rfl, h.files, h.valid hv.1, hv.2.of_nodes h.nodes⟩

/-- The page of a file is found or made. -/
theorem exists_filePage (ino index : ℕ) : ∃ page w', filePage ino index w = .ok (page, w') := by
  unfold filePage
  rw [read_bind]
  cases w.host.pages.lookup (ino, index) with
  | some page => exact ⟨page, w, rfl⟩
  | none => exact ⟨_, _, rfl⟩

/-- The test of a node number is answered. -/
theorem exists_nodeInRange (hv : w.host.Valid) (nid : ℕ) :
    ∃ r v', (backend handler).nodeInRange nid w = .ok (r, { w with host := v' }) ∧
      w.host.Kept v' := by
  obtain ⟨failed, v', hattempt, hkept⟩ := exists_attempt handler hv (.nodeInRange nid)
  have hrun : ∃ r, (backend handler).nodeInRange nid w = .ok (r, { w with host := v' }) := by
    cases failed with
    | some status => exact ⟨_, Act.bind_of_ok hattempt _⟩
    | none => exact ⟨_, Act.bind_of_ok hattempt _⟩
  obtain ⟨r, hrun⟩ := hrun
  exact ⟨r, v', hrun, hkept⟩

/-- The request for a page of a file is answered, and at most a page is made. -/
theorem exists_dataPage (hw : tiledLedger.Valid w.host) (inode : Inode) (index : ℕ) :
    ∃ r w', (backend handler).dataPage inode index w = .ok (r, w') ∧ tiledLedger.Same w w' := by
  obtain ⟨v', hkept, ⟨status, hserve⟩ | hserve⟩ := exists_serve handler hw.1
    (.dataPage inode.ino index) do return .ok (← filePage inode.ino index)
  · exact ⟨_, _, hserve, hkept.same hw⟩
  · obtain ⟨page, w₁, hfile⟩ := exists_filePage (w := { w with host := v' }) inode.ino index
    obtain ⟨hsame, hnodes, -⟩ := filePage_eq_ok (hkept.valid hw.1) hfile
    refine ⟨.ok page, w₁, hserve.trans (Act.bind_eq_ok.mpr ⟨_, _, hfile, rfl⟩), ?_⟩
    exact (hkept.same hw).trans
      ⟨hsame.area, hsame.files, hsame.valid, (hkept.same hw).valid.2.of_nodes hnodes⟩

/-- A lookup is answered with the truth and changes nothing. -/
theorem exists_lookup {q : Query} (hq : q.IsLookup) (hw : tiledLedger.Valid w.host) :
    ∃ r w', (backend handler).ask q w = .ok (r, w') ∧ tiledLedger.Same w w' ∧
      (w.host.files).Truthful ⟨q, r⟩ := by
  cases q with
  | summary seg =>
    obtain ⟨r, v', hrun, hkept, -⟩ := exists_read handler hw.1
      (.summary seg w.collector.progress.phase) fun v => orNotFound (v.summaries.lookup seg)
    exact ⟨r, _, hrun, hkept.same hw, trivial⟩
  | nodeInRange nid =>
    obtain ⟨r, v', hrun, hkept⟩ := exists_nodeInRange handler hw.1 nid
    exact ⟨r, _, hrun, hkept.same hw, trivial⟩
  | nodePage nid =>
    obtain ⟨r, v', hrun, hkept, hread⟩ := exists_read handler hw.1 (.nodePage nid) fun v =>
      orNotFound ((v.node? nid).map fun n => (⟨n.page, nid, n.first, n.slots⟩ : NodePage))
    refine ⟨r, _, hrun, hkept.same hw, ?_⟩
    cases r with
    | error status => trivial
    | ok node =>
      obtain ⟨n, hn, rfl⟩ := Option.map_eq_some_iff.mp (orNotFound_eq_ok.mp (hread node rfl))
      rw [hkept.node?] at hn
      exact ⟨by simp [files, hn], fun index => by simp [files, hn, NodePage.pointer]⟩
  | nodeInfo nid =>
    obtain ⟨r, v', hrun, hkept, hread⟩ := exists_read handler hw.1 (.nodeInfo nid) fun v =>
      orNotFound ((v.node? nid).map fun n => (⟨nid, n.ino, n.address, n.version⟩ : NodeInfo))
    refine ⟨r, _, hrun, hkept.same hw, ?_⟩
    cases r with
    | error status => trivial
    | ok info =>
      obtain ⟨n, hn, rfl⟩ := Option.map_eq_some_iff.mp (orNotFound_eq_ok.mp (hread info rfl))
      rw [hkept.node?] at hn
      show n.ino = w.host.files.owner nid
      simp [files, hn]
  | inode ino =>
    obtain ⟨r, v', hrun, hkept, hread⟩ := exists_read handler hw.1 (.inode ino) fun v =>
      orNotFound ((v.inodes.lookup ino).map fun _ => (⟨ino⟩ : Inode))
    refine ⟨r, _, hrun, hkept.same hw, ?_⟩
    cases r with
    | error status => trivial
    | ok inode =>
      obtain ⟨_, -, rfl⟩ := Option.map_eq_some_iff.mp (orNotFound_eq_ok.mp (hread inode rfl))
      rfl
  | isLinked inode =>
    obtain ⟨v', henter, hkept⟩ := exists_enter handler hw.1 (.isLinked inode.ino)
    refine ⟨(v'.inodes.lookup inode.ino).getD false, { w with host := v' }, ?_, hkept.same hw, ?_⟩
    · exact Act.bind_of_ok henter _
    · show (v'.inodes.lookup inode.ino).getD false = (w.host.inodes.lookup inode.ino).getD false
      rw [hkept.inodes]
  | dataPage inode index =>
    obtain ⟨r, w', hrun, hsame⟩ := exists_dataPage handler hw inode index
    exact ⟨r, w', hrun, hsame, trivial⟩
  | placeNode _ | placeData _ _ | punch _ _ _ _ | writeback _ | checkpointFailed
  | writeCheckpoint => cases hq

/-! ## Releasing an index -/

/-- A slot that the node has is pointed elsewhere. -/
theorem setSlot_eq {slot : ℕ} (addr : Address) (hn : w.host.node? nid = some n)
    (hslot : slot < n.slots.size) : setSlot nid slot addr w = .ok ((), { w with
      host := w.host.setNode nid { n with slots := n.slots.setIfInBounds slot addr } }) := by
  unfold setSlot
  rw [hn]
  exact if_pos hslot

/-- Releasing an index of a file drops the block recorded for it and clears its slot, or changes
nothing. -/
theorem exists_punch (ino index : ℕ) (hsound : w.area.Sound) (hw : tiledLedger.Valid w.host) :
    ∃ r w', punch ino 1 index w = .ok (r, w') ∧ tiledLedger.Valid w'.host ∧
      (w'.area = w.area ∨ ∃ h r', w.host.files.key h = .data ino index ∧
        w.area.invalidate (w.host.files.pointer h) = .ok (r', w'.area)) := by
  unfold punch
  rw [read_bind]
  cases hlocate : w.host.locate? ino index with
  | none => exact ⟨_, w, rfl, hw, Or.inl rfl⟩
  | some located =>
    obtain ⟨nid, n⟩ := located
    obtain ⟨hn, hino, hfirst, hlast⟩ := locate?_spec hw.1 hlocate
    obtain ⟨released, table, dirty, hdrop, -⟩ :=
      hsound.invalidate (n.slots[index - n.first]?.getD Address.null)
    have hrelease : (release (n.slots[index - n.first]?.getD Address.null) :
        Act (Volume ι ρ) _) w = .ok (released, { w with area := { w.area with table, dirty } }) :=
      Act.onArea_eq_ok.mpr ⟨_, hdrop, rfl⟩
    rw [← pointer_slot hn] at hdrop
    have hdropped : ∃ h r', w.host.files.key h = .data ino index ∧
        w.area.invalidate (w.host.files.pointer h) =
          .ok (r', ({ w.area with table, dirty } : Area)) :=
      ⟨.slot nid (index - n.first), released, key_slot hn hino hfirst, hdrop⟩
    cases released with
    | error status =>
      exact ⟨_, _, Act.bind_eq_ok.mpr ⟨_, _, hrelease, rfl⟩, hw, Or.inr hdropped⟩
    | ok _ =>
      have hset := setSlot_eq (w := { w with area := { w.area with table, dirty } }) Address.null
        hn (Nat.sub_lt_left_of_lt_add hfirst hlast)
      exact ⟨.ok (), _,
        Act.bind_eq_ok.mpr ⟨_, _, hrelease, Act.bind_eq_ok.mpr ⟨(), _, hset, rfl⟩⟩,
        ⟨hw.1.setNode hn rfl, hw.2.setNode hn Array.size_setIfInBounds⟩, Or.inr hdropped⟩

/-- A volume with one slot at most for an index is confined, whoever handles interruptions. -/
theorem backend_confined : (backend handler).Confined tiledLedger where
  single v hv h h' hkey hptr hptr' := by rw [hv.2.single hkey hptr hptr']
  indices v hv nid slot h := hv.2.index_lt h
  looks q hq w _ hw := exists_lookup handler hq hw
  punch inode index w hsound hw := by
    obtain ⟨v', hkept, ⟨status, hserve⟩ | hserve⟩ := exists_serve handler hw.1
      (.punch inode.ino index (index + 1) true) (punch inode.ino (index + 1 - index) index)
    · exact ⟨_, _, hserve, (hkept.same hw).valid, Or.inl rfl⟩
    · have hpunched := exists_punch (w := { w with host := v' }) inode.ino index hsound
        (hkept.same hw).valid
      dsimp only at hpunched
      rw [hkept.files] at hpunched
      obtain ⟨r, w', hrun, hvalid, harea⟩ := hpunched
      refine ⟨r, w', hserve.trans ?_, hvalid, harea⟩
      rw [Nat.add_sub_cancel_left]
      exact hrun

/-! ## An orphan -/

/-- The volume of one file, whose inode is not linked any more. -/
def oneOrphan (node block : Address) : Volume Empty Unit :=
  { oneFile node block with inodes := [(1, false)] }

/-- The one node of the orphan has each index once, and all is in order. -/
theorem valid_oneOrphan (node block : Address) :
    tiledLedger.Valid (oneOrphan node block) := by
  have hfile := valid_oneFile node block
  refine ⟨⟨hfile.uninterrupted, hfile.distinct, hfile.node_page, hfile.file_page⟩, ?_⟩
  -- A node that is found is node 1, which has one slot.
  have hnode : ∀ nid n, (oneOrphan node block).node? nid = some n →
      nid = 1 ∧ n.first + n.slots.size < 2 ^ 64 := by
    intro nid n hn
    change List.lookup nid [(1, _)] = some n at hn
    rw [lookup_cons_eq_ite] at hn
    split_ifs at hn with hnid
    · cases hn
      exact ⟨hnid, show 0 + 1 < 2 ^ 64 by decide⟩
    · cases hn
  constructor
  · intro nid n nid' n' hn hn' _ _ _ _
    rw [(hnode nid n hn).1, (hnode nid' n' hn').1]
  · exact fun nid n hn => (hnode nid n hn).2

end Reclaim.Volume
