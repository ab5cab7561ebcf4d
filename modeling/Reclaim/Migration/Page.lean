import Reclaim.Geometry

/-!
# Cached pages

Collection never touches block contents. It is handed pages, handles to cached blocks of nodes and
files, and raises flags on them: a page is dirty when it must be written again, cold when its next
block belongs on the cold data log, and under writeback once it has been handed to the writer.
Handles with one number are one page and share their flags, which the `PageCache` keeps.
-/

namespace Reclaim

/-- What a page caches. -/
inductive PageKey where
  /-- The block of a node. -/
  | node (nid : Nat)
  /-- The block of a file at an index. -/
  | data (ino index : Nat)
deriving DecidableEq

/-- A handle to a cached page. -/
structure Page where
  /-- The page itself: handles of one page have one number. -/
  id : Nat
  /-- What the page caches. -/
  key : PageKey
deriving DecidableEq

/-- A flag of a page. -/
inductive PageFlag where
  /-- The page must be written again. -/
  | dirty
  /-- The page has been handed to the writer. -/
  | writeback
  /-- The next block of the page belongs on the cold data log. -/
  | cold
deriving DecidableEq

/-- The flags of a page. -/
structure PageFlags where
  /-- The page must be written again. -/
  dirty : Bool := false
  /-- The page has been handed to the writer. -/
  writeback : Bool := false
  /-- The next block of the page belongs on the cold data log. -/
  cold : Bool := false
deriving DecidableEq

namespace PageFlags

/-- Whether a flag is raised. -/
def get (f : PageFlags) : PageFlag → Bool
  | .dirty => f.dirty
  | .writeback => f.writeback
  | .cold => f.cold

/-- Raises or lowers a flag. -/
def set (f : PageFlags) (flag : PageFlag) (value : Bool) : PageFlags :=
  match flag with
  | .dirty => { f with dirty := value }
  | .writeback => { f with writeback := value }
  | .cold => { f with cold := value }

end PageFlags

/-- The flags of all pages. A page that is not listed has none raised. -/
structure PageCache where
  /-- The flags of the listed pages, by page number. -/
  flags : List (Nat × PageFlags)
  /-- The number of the next new page. -/
  fresh : Nat

namespace PageCache

/-- A cache without pages. -/
def empty : PageCache := ⟨[], 0⟩

/-- A new page for a key, with no flag raised. -/
def add (c : PageCache) (key : PageKey) : Page × PageCache :=
  (⟨c.fresh, key⟩, { c with fresh := c.fresh + 1 })

/-- The flags of a page. -/
def get (c : PageCache) (p : Page) : PageFlags := (c.flags.lookup p.id).getD {}

/-- Replaces the value of a key in a list of pairs, at the end if the key is new. -/
def assign (id : Nat) (f : PageFlags) : List (Nat × PageFlags) → List (Nat × PageFlags)
  | [] => [(id, f)]
  | (k, x) :: rest => if k = id then (k, f) :: rest else (k, x) :: assign id f rest

/-- Raises or lowers a flag of a page, telling whether it was raised before. -/
def mark (c : PageCache) (p : Page) (flag : PageFlag) (value : Bool) : Bool × PageCache :=
  let f := c.get p
  (f.get flag, { c with flags := assign p.id (f.set flag value) c.flags })

end PageCache

/-- What the node address table knows of a node. -/
structure NodeInfo where
  /-- The node. -/
  nid : Nat
  /-- The inode that owns the node. -/
  ino : Nat
  /-- The block that holds the node. -/
  address : Address
  /-- The version stamp, moved on whenever the number is given to a new node. -/
  version : Nat
deriving DecidableEq

/-- A loaded node: its page and the block pointers in it. Slot `i` points at the block of the file
at index `first + i`. -/
structure NodePage where
  /-- The page of the node. -/
  page : Page
  /-- The node. -/
  nid : Nat
  /-- The file index of the first slot. -/
  first : Nat
  /-- The block pointers. -/
  slots : Array Address

/-- The block that a slot points at; a slot that the node does not have points nowhere. -/
def NodePage.pointer (n : NodePage) (slot : Nat) : Address := n.slots[slot]?.getD Address.null

end Reclaim
