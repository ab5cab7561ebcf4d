/-!
# Result codes

Operations on the main area and on the filesystem around it answer with a `Status` when they are
refused. `Outcome` is the answer of such an operation: a value, or the code of the refusal. The
failures of a storage device are folded into the same codes by `Status.ofDevice`.
-/

namespace Reclaim

/-- The result codes of the surrounding filesystem, in the order of their numbers. -/
inductive Status where
  /-- The operation completed. -/
  | ok
  /-- There is no eligible victim right now; asking again later may succeed. -/
  | unavailable
  /-- A structural condition does not hold: collection must yield, or left blocks behind. -/
  | badState
  /-- The storage layer reported an error. -/
  | ioError
  /-- The block device went away in the middle of an operation. -/
  | peerClosed
  /-- The requested node, inode or page does not exist. -/
  | notFound
  /-- No free section is left to allocate from. -/
  | noSpace
  /-- An argument is not acceptable. -/
  | invalidArgument
  /-- A segment, section or block lies outside the main area. -/
  | outOfRange
deriving DecidableEq

/-- The answer of an operation that can be refused. -/
abbrev Outcome (α : Type) := Except Status α

namespace Status

/-- Every code, in the order of their numbers. -/
def all : List Status :=
  [.ok, .unavailable, .badState, .ioError, .peerClosed, .notFound, .noSpace, .invalidArgument,
    .outOfRange]

/-- The number of a code. -/
def number : Status → Nat
  | .ok => 0
  | .unavailable => 1
  | .badState => 2
  | .ioError => 3
  | .peerClosed => 4
  | .notFound => 5
  | .noSpace => 6
  | .invalidArgument => 7
  | .outOfRange => 8

/-- The name under which a code is reported. -/
def name : Status → String
  | .ok => "Ok"
  | .unavailable => "Unavailable"
  | .badState => "BadState"
  | .ioError => "IoError"
  | .peerClosed => "PeerClosed"
  | .notFound => "NotFound"
  | .noSpace => "NoSpace"
  | .invalidArgument => "InvalidArgument"
  | .outOfRange => "OutOfRange"

/-- Whether the code reports success. -/
def isOk (s : Status) : Bool := s = .ok

/-- Whether the code reports anything but success. -/
def isError (s : Status) : Bool := !s.isOk

/-- Whether the code is a failure of the storage itself, passed on unchanged. -/
def isStorage (s : Status) : Bool := s = .ioError || s = .peerClosed

/-- The kinds of device failure that keep a code of their own. -/
inductive DeviceFailure where
  /-- The thing addressed does not exist. -/
  | notFound
  /-- The other end closed its pipe. -/
  | brokenPipe
  /-- The other end reset the connection. -/
  | connectionReset
  /-- The request itself was malformed. -/
  | invalidInput
  /-- Any other failure. -/
  | other

/-- The code of a device failure: a lost peer, a missing thing and a malformed request keep their
meaning, all else is an input/output error. -/
def ofDevice : DeviceFailure → Status
  | .notFound => .notFound
  | .brokenPipe | .connectionReset => .peerClosed
  | .invalidInput => .invalidArgument
  | .other => .ioError

end Status

end Reclaim
