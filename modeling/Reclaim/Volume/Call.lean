import Reclaim.Migration.World

/-!
# Calls to the filesystem

A `Call` names an operation of the backend with its arguments. A call has a word, by which
interruptions and faults pick it, a key, by which faults may pick it more narrowly, and a text, as
which it is written into the trace.
-/

namespace Reclaim

/-- The text of a page key: `n` and the node, or `d`, the inode and the index. -/
def PageKey.text : PageKey → String
  | .node nid => "n" ++ toString nid
  | .data ino index => "d" ++ toString ino ++ ":" ++ toString index

/-- An operation of the backend with its arguments. -/
inductive Call where
  /-- The summary of a segment is read in a phase. -/
  | summary (seg : Nat) (phase : Phase)
  /-- A node number is tested. -/
  | nodeInRange (nid : Nat)
  /-- A node is loaded. -/
  | nodePage (nid : Nat)
  /-- A node is looked up. -/
  | nodeInfo (nid : Nat)
  /-- A node page is given a block. -/
  | placeNode (key : PageKey)
  /-- An inode is found. -/
  | inode (ino : Nat)
  /-- An inode is asked whether it is linked. -/
  | isLinked (ino : Nat)
  /-- A page of a file is found. -/
  | dataPage (ino index : Nat)
  /-- A data page is given a block. -/
  | placeData (key : PageKey)
  /-- The blocks of a file are released from one index up to another. -/
  | punch (ino start stop : Nat) (evict : Bool)
  /-- Pages are handed to the writer. -/
  | writeback (keys : List PageKey)
  /-- The filesystem is asked whether a checkpoint has failed. -/
  | checkpointFailed
  /-- A checkpoint is written in a phase. -/
  | checkpoint (phase : Phase)

namespace Call

/-- The word of a call. -/
def word : Call → String
  | .summary .. => "sum"
  | .nodeInRange _ => "nid"
  | .nodePage _ => "npage"
  | .nodeInfo _ => "ninfo"
  | .placeNode _ => "naddr"
  | .inode _ => "vnode"
  | .isLinked _ => "is_valid"
  | .dataPage .. => "find"
  | .placeData _ => "daddr"
  | .punch .. => "trunc"
  | .writeback _ => "wb"
  | .checkpointFailed => "cp_error"
  | .checkpoint _ => "cp"

/-- The key of a call, empty if it has no argument to be picked by. -/
def key : Call → String
  | .summary seg _ => toString seg
  | .nodeInRange nid => toString nid
  | .nodePage nid => toString nid
  | .nodeInfo nid => toString nid
  | .placeNode key => key.text
  | .inode ino => toString ino
  | .isLinked ino => toString ino
  | .dataPage ino index => (PageKey.data ino index).text
  | .placeData key => key.text
  | .punch ino start stop _ => (PageKey.data ino start).text ++ "-" ++ toString stop
  | .writeback keys => ",".intercalate (keys.map PageKey.text)
  | .checkpointFailed => ""
  | .checkpoint _ => ""

/-- What the text of a call says after its key: the phase, or that pages are evicted. -/
def note : Call → String
  | .summary _ phase => " @" ++ phase.name
  | .checkpoint phase => " @" ++ phase.name
  | .punch _ _ _ evict => if evict then " evict" else ""
  | _ => ""

/-- The text of a call. -/
def text (c : Call) : String :=
  (if c.key.isEmpty then c.word else c.word ++ " " ++ c.key) ++ c.note

end Call

end Reclaim
