/-!
# The six logs

Blocks are appended to one of six logs, by the kind of block and by how soon it is expected to be
rewritten. `PerLog` holds one value for each log.
-/

namespace Reclaim

/-- What a block holds. -/
inductive BlockKind where
  /-- File contents. -/
  | data
  /-- Block pointers. -/
  | node
deriving DecidableEq

/-- The name of a kind of block. -/
def BlockKind.name : BlockKind → String
  | .data => "Data"
  | .node => "Node"

/-- How soon the blocks of a log are expected to be rewritten. -/
inductive Heat where
  /-- Directory contents and their nodes. -/
  | hot
  /-- Ordinary file contents and their nodes. -/
  | warm
  /-- Blocks moved by collection or rarely written, and indirect nodes. -/
  | cold
deriving DecidableEq

/-- The name of a heat. -/
def Heat.name : Heat → String
  | .hot => "Hot"
  | .warm => "Warm"
  | .cold => "Cold"

/-- A log that blocks are appended to. -/
structure Log where
  /-- How soon its blocks are expected to be rewritten. -/
  heat : Heat
  /-- What its blocks hold. -/
  kind : BlockKind
deriving DecidableEq

namespace Log

/-- The log of directory contents. -/
def hotData : Log := ⟨.hot, .data⟩

/-- The log of ordinary file contents. -/
def warmData : Log := ⟨.warm, .data⟩

/-- The log of data moved by collection or rarely written. -/
def coldData : Log := ⟨.cold, .data⟩

/-- The log of the direct nodes of directories. -/
def hotNode : Log := ⟨.hot, .node⟩

/-- The log of the direct nodes of files. -/
def warmNode : Log := ⟨.warm, .node⟩

/-- The log of indirect nodes. -/
def coldNode : Log := ⟨.cold, .node⟩

/-- The logs in the order of their numbers: the data logs from hot to cold, then the node logs. -/
def all : List Log := [hotData, warmData, coldData, hotNode, warmNode, coldNode]

/-- The number of a log. -/
def number (l : Log) : Nat :=
  (match l.kind with
    | .data => 0
    | .node => 3) +
  match l.heat with
    | .hot => 0
    | .warm => 1
    | .cold => 2

/-- The name of a log: its heat and its kind. -/
def name (l : Log) : String := l.heat.name ++ l.kind.name

/-- Whether the log holds nodes. -/
def isNode (l : Log) : Bool := l.kind = .node

/-- Whether the log holds data. -/
def isData (l : Log) : Bool := l.kind = .data

end Log

/-- One value for each log. -/
structure PerLog (α : Type) where
  /-- The value of the hot data log. -/
  hotData : α
  /-- The value of the warm data log. -/
  warmData : α
  /-- The value of the cold data log. -/
  coldData : α
  /-- The value of the hot node log. -/
  hotNode : α
  /-- The value of the warm node log. -/
  warmNode : α
  /-- The value of the cold node log. -/
  coldNode : α
deriving DecidableEq

namespace PerLog

variable {α : Type}

/-- The same value for every log. -/
def const (x : α) : PerLog α := ⟨x, x, x, x, x, x⟩

/-- The value of a log. -/
def get (p : PerLog α) : Log → α
  | ⟨.hot, .data⟩ => p.hotData
  | ⟨.warm, .data⟩ => p.warmData
  | ⟨.cold, .data⟩ => p.coldData
  | ⟨.hot, .node⟩ => p.hotNode
  | ⟨.warm, .node⟩ => p.warmNode
  | ⟨.cold, .node⟩ => p.coldNode

/-- Replaces the value of a log. -/
def set (p : PerLog α) (l : Log) (x : α) : PerLog α :=
  match l with
  | ⟨.hot, .data⟩ => { p with hotData := x }
  | ⟨.warm, .data⟩ => { p with warmData := x }
  | ⟨.cold, .data⟩ => { p with coldData := x }
  | ⟨.hot, .node⟩ => { p with hotNode := x }
  | ⟨.warm, .node⟩ => { p with warmNode := x }
  | ⟨.cold, .node⟩ => { p with coldNode := x }

/-- The values in the order of the logs. -/
def toList (p : PerLog α) : List α := Log.all.map p.get

end PerLog

end Reclaim
