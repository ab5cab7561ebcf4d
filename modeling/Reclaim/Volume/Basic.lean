import Reclaim.Volume.Call

/-!
# A filesystem in memory

`Volume` is a small filesystem to collect on: nodes with slots that point at data blocks, inodes,
cached pages and segment summaries. It writes a trace of the calls made to it and can be scripted:
an `Interruption` runs actions in the middle of a call, and a `Fault` makes a call fail. Actions and
their answers are left open: `ι` is the type of actions and `ρ` that of their answers.
-/

namespace Reclaim

/-- A node and the slots in it. -/
structure Node where
  /-- The inode that owns the node. -/
  ino : Nat
  /-- The block that holds the node. -/
  address : Address
  /-- The version stamp, from 0 to 255. -/
  version : Nat
  /-- The file index of the first slot. -/
  first : Nat
  /-- The block pointers. -/
  slots : Array Address
  /-- The page of the node. -/
  page : Page

namespace Node

/-- Whether the node has the slot of a file index. -/
def covers (n : Node) (index : Nat) : Bool := n.first ≤ index && index < n.first + n.slots.size

end Node

/-- Calls of a word, and of a key if one is given, that fail: the first `skip` of them pass, then
`times` of them fail, all of them if there is no number. -/
structure Fault where
  /-- The word of the calls. -/
  word : String
  /-- The key of the calls. -/
  key : Option String
  /-- The status that the calls fail with. -/
  status : Status
  /-- The number of calls that still pass. -/
  skip : Nat
  /-- The number of calls that still fail after them. -/
  times : Option Nat

/-- Actions to be run in the middle of a call, once. -/
structure Interruption (ι : Type) where
  /-- The word of the call. -/
  word : String
  /-- The number of calls of this word up to the one that is interrupted, that one included. -/
  countdown : Nat
  /-- The actions. -/
  actions : List ι

/-- An entry of the trace. -/
inductive TraceEntry (ρ : Type) where
  /-- A call was made. -/
  | call (call : Call)
  /-- An action was run in the middle of a call and gave an answer. -/
  | interrupted (answer : ρ)

/-- A filesystem in memory. -/
structure Volume (ι ρ : Type) where
  /-- The number of slots in a node. -/
  slots : Nat
  /-- The nodes by number, in ascending order. -/
  nodes : List (Nat × Node)
  /-- Whether each inode is linked. -/
  inodes : List (Nat × Bool)
  /-- The cached pages of files, by inode and index. -/
  pages : List ((Nat × Nat) × Page)
  /-- The summaries by segment. -/
  summaries : List (Nat × SummaryBlock)
  /-- The highest node number given out. -/
  lastNid : Nat
  /-- The time at which blocks are written. -/
  clock : Nat
  /-- The scripted interruptions, in the order of their registration. -/
  interruptions : List (Interruption ι)
  /-- The scripted faults, in the order of their registration. -/
  faults : List Fault
  /-- The trace, latest entry first. -/
  trace : List (TraceEntry ρ)
  /-- The most pages that the writer takes from a batch. -/
  accepts : Option Nat
  /-- Whether a checkpoint has failed. -/
  broken : Bool

namespace Volume

variable {ι ρ : Type}

/-- A volume without nodes. -/
def empty (slots : Nat) : Volume ι ρ :=
  ⟨slots, [], [], [], [], 0, 0, [], [], [], none, false⟩

/-- Replaces the value of a key in a list of pairs, at the end if the key is new. -/
def assign {κ α : Type} [DecidableEq κ] (k : κ) (x : α) : List (κ × α) → List (κ × α)
  | [] => [(k, x)]
  | (k', y) :: rest => if k' = k then (k, x) :: rest else (k', y) :: assign k x rest

/-- Removes the value of a key from a list of pairs. -/
def discard {κ α : Type} [DecidableEq κ] (k : κ) (xs : List (κ × α)) : List (κ × α) :=
  xs.filter fun p => p.1 ≠ k

/-- A node by its number. -/
def node? (v : Volume ι ρ) (nid : Nat) : Option Node := v.nodes.lookup nid

/-- The lowest node of an inode that has the slot of a file index. -/
def locate? (v : Volume ι ρ) (ino index : Nat) : Option (Nat × Node) :=
  v.nodes.find? fun (_, n) => n.ino = ino && n.covers index

/-- Replaces a node. -/
def setNode (v : Volume ι ρ) (nid : Nat) (n : Node) : Volume ι ρ :=
  { v with nodes := assign nid n v.nodes }

/-- Records the claim on a block in the summary of its segment. A summary of the other kind gives
way to a blank one. -/
def record (v : Volume ι ρ) (g : Geometry) (addr : Address) (kind : BlockKind) (sum : Summary) :
    Volume ι ρ :=
  match g.segmentOf? addr with
  | none => v
  | some seg =>
    let block :=
      match v.summaries.lookup seg with
      | none => SummaryBlock.blank kind g.segmentBlocks
      | some block =>
        if block.kind = kind then block else SummaryBlock.blank kind g.segmentBlocks
    { v with summaries := assign seg (block.record (g.offsetOf addr) sum) v.summaries }

/-- The cached pages of files, by inode and then by index. -/
def cachedPages (v : Volume ι ρ) : List ((Nat × Nat) × Page) :=
  v.pages.mergeSort fun a b => a.1.1 < b.1.1 || (a.1.1 = b.1.1 && a.1.2 ≤ b.1.2)

end Volume

end Reclaim
