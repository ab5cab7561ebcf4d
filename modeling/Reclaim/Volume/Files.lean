import Reclaim.Area.Writing
import Reclaim.Volume.Basic

/-!
# Files on the volume

Files are written by appending blocks to the logs of the area: a block that is written again gets a
new address, its old block dies, and the summary of its new segment records the claim. An operation
that is refused stops where it is; what it has done so far stays done.
-/

namespace Reclaim.Volume

variable {ι ρ : Type}

/-- What the volume gives. -/
def read {α : Type} (f : Volume ι ρ → α) : Act (Volume ι ρ) α := fun w => .ok (f w.host, w)

/-- Changes the volume. -/
def change (f : Volume ι ρ → Volume ι ρ) : Act (Volume ι ρ) Unit := fun w =>
  .ok ((), { w with host := f w.host })

/-- Appends a block to a log of the area. -/
def append (log : Option Log) : Act (Volume ι ρ) (Outcome Address) := do
  let clock ← read (·.clock)
  Act.onArea (·.allocate log clock)

/-- Drops a block of the area. -/
def release (addr : Address) : Act (Volume ι ρ) (Outcome Unit) := Act.onArea (·.invalidate addr)

/-- Records the claim on a block in its summary. -/
def claim (addr : Address) (kind : BlockKind) (sum : Summary) : Act (Volume ι ρ) Unit := fun w =>
  .ok ((), { w with host := w.host.record w.area.geometry addr kind sum })

/-- A new page for a key. -/
def newPage (key : PageKey) : Act (Volume ι ρ) Page := fun w =>
  let (page, pages) := w.pages.add key
  .ok (page, { w with pages })

/-- Points a slot of a node at an address. A slot that the node does not have traps. -/
def setSlot (nid slot : Nat) (addr : Address) : Act (Volume ι ρ) Unit := fun w =>
  match w.host.node? nid with
  | none => .error .index
  | some n =>
    if slot < n.slots.size then
      .ok ((), { w with
        host := w.host.setNode nid { n with slots := n.slots.setIfInBounds slot addr } })
    else
      .error .index

/-- Writes the block of a file at an index to a log. -/
def moveData (ino index : Nat) (log : Option Log) : Act (Volume ι ρ) (Outcome Address) := do
  match ← read (·.locate? ino index) with
  | none => return .error .notFound
  | some (nid, n) =>
    match ← append log with
    | .error status => return .error status
    | .ok addr =>
      let slot := index - n.first
      claim addr .data ⟨nid, n.version, slot⟩
      match ← release (n.slots[slot]?.getD Address.null) with
      | .error status => return .error status
      | .ok () =>
        setSlot nid slot addr
        return .ok addr

/-- Writes a node to a log. -/
def moveNode (nid : Nat) (log : Option Log) : Act (Volume ι ρ) (Outcome Address) := do
  match ← read (·.node? nid) with
  | none => return .error .notFound
  | some n =>
    match ← append log with
    | .error status => return .error status
    | .ok addr =>
      claim addr .node { nid }
      match ← release n.address with
      | .error status => return .error status
      | .ok () =>
        change (·.setNode nid { n with address := addr })
        return .ok addr

/-- Releases the blocks of a file at a number of indices from one on. -/
def punch (ino : Nat) : Nat → Nat → Act (Volume ι ρ) (Outcome Unit)
  | 0, _ => return .ok ()
  | left + 1, index => do
    match ← read (·.locate? ino index) with
    | none => return .error .notFound
    | some (nid, n) =>
      let slot := index - n.first
      match ← release (n.slots[slot]?.getD Address.null) with
      | .error status => return .error status
      | .ok () =>
        setSlot nid slot Address.null
        punch ino left (index + 1)

/-- Writes the blocks of a file at a number of indices from one on again, telling the last new
address, or the one given if there is none. -/
def overwrite (ino : Nat) (log : Option Log) :
    Nat → Nat → Address → Act (Volume ι ρ) (Outcome Address)
  | 0, _, last => return .ok last
  | left + 1, index, _ => do
    match ← moveData ino index log with
    | .error status => return .error status
    | .ok addr => overwrite ino log left (index + 1) addr

/-- Appends the data blocks of a new node, `left` of them from a slot on, to the addresses so
far. -/
def fillSlots (nid : Nat) (log : Option Log) :
    Nat → Array Address → Act (Volume ι ρ) (Outcome (Array Address))
  | 0, slots => return .ok slots
  | left + 1, slots => do
    match ← append log with
    | .error status => return .error status
    | .ok addr =>
      claim addr .data ⟨nid, 0, slots.size⟩
      fillSlots nid log left (slots.push addr)

/-- A new node of an inode, which is named as the node unless it is given, with a number of data
blocks, and its number. The number is used up even if no block can be had. -/
def create (blocks : Nat) (ino : Option Nat) (dataLog nodeLog : Option Log) (first : Nat) :
    Act (Volume ι ρ) (Outcome Nat) := do
  change fun v => { v with lastNid := v.lastNid + 1 }
  let nid ← read (·.lastNid)
  let ino := ino.getD nid
  match ← append nodeLog with
  | .error status => return .error status
  | .ok address =>
    claim address .node { nid }
    match ← fillSlots nid dataLog blocks #[] with
    | .error status => return .error status
    | .ok addrs =>
      let total ← read (·.slots)
      if total < addrs.size then
        Act.stop .index
      else
        let slots := addrs ++ Array.replicate (total - addrs.size) Address.null
        let page ← newPage (.node nid)
        change fun v =>
          { v with
            nodes := assign nid ⟨ino, address, 0, first, slots, page⟩ v.nodes
            inodes := if (v.inodes.lookup ino).isSome then v.inodes
              else assign ino true v.inodes }
        return .ok nid

/-- Releases a list of blocks, up to the first that is refused. -/
def releaseAll : List Address → Act (Volume ι ρ) (Outcome Unit)
  | [] => return .ok ()
  | addr :: rest => do
    match ← release addr with
    | .error status => return .error status
    | .ok () => releaseAll rest

/-- Deletes a node with its inode and all of its blocks. -/
def delete (nid : Nat) : Act (Volume ι ρ) (Outcome Unit) := do
  match ← read (·.node? nid) with
  | none => return .error .notFound
  | some n =>
    change fun v =>
      { v with nodes := discard nid v.nodes, inodes := discard n.ino v.inodes }
    releaseAll (n.slots.toList ++ [n.address])

/-- Unlinks an inode, which becomes known by this if it was not. -/
def orphan (ino : Nat) : Act (Volume ι ρ) Unit :=
  change fun v => { v with inodes := assign ino false v.inodes }

/-- Forgets an inode, telling whether it was known. -/
def forget (ino : Nat) : Act (Volume ι ρ) Bool := do
  let known ← read fun v => (v.inodes.lookup ino).isSome
  change fun v => { v with inodes := discard ino v.inodes }
  return known

/-- Moves the version of a node on and tells the new one. -/
def bump (nid step : Nat) : Act (Volume ι ρ) (Outcome Nat) := do
  match ← read (·.node? nid) with
  | none => return .error .notFound
  | some n =>
    let version := (n.version + step) % 256
    change (·.setNode nid { n with version })
    return .ok version

/-- Overwrites an entry of a stored summary. -/
def tamper (seg off : Nat) (sum : Summary) : Act (Volume ι ρ) (Outcome Unit) := do
  match ← read (·.summaries.lookup seg) with
  | none => return .error .notFound
  | some block =>
    change fun v => { v with summaries := assign seg (block.record off sum) v.summaries }
    return .ok ()

/-- Cuts a stored summary to a number of entries, or fills it up with empty ones. -/
def resizeSummary (seg entries : Nat) : Act (Volume ι ρ) (Outcome Unit) := do
  match ← read (·.summaries.lookup seg) with
  | none => return .error .notFound
  | some block =>
    let kept := block.entries.take entries
    let block := { block with entries := kept ++ Array.replicate (entries - kept.size) {} }
    change fun v => { v with summaries := assign seg block v.summaries }
    return .ok ()

end Reclaim.Volume
