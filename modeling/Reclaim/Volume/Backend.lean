import Reclaim.Volume.Files

/-!
# The volume as a backend

Every call to the volume is entered into the trace; then the interruptions that are due run their
actions, faults are examined, and at last the call does its work. The actions of interruptions are
carried out by a handler, and whatever calls they make are traced, interrupted and examined in the
same way. `Volume.backend` is the volume with a handler as a `Backend`.
-/

namespace Reclaim

namespace Fault

/-- Whether a fault is about a call. -/
def picks (f : Fault) (c : Call) : Bool := f.word = c.word && f.key.all (· = c.key)

/-- Examines a list of faults for a call. The first that makes the call fail ends the examination,
and later ones do not count the call. -/
def examine (c : Call) : List Fault → Option Status × List Fault
  | [] => (none, [])
  | f :: rest =>
    if f.picks c then
      if f.skip = 0 then
        match f.times with
        | none => (some f.status, f :: rest)
        | some (left + 1) => (some f.status, { f with times := some left } :: rest)
        | some 0 =>
          let (failed, rest) := examine c rest
          (failed, f :: rest)
      else
        let (failed, rest) := examine c rest
        (failed, { f with skip := f.skip - 1 } :: rest)
    else
      let (failed, rest) := examine c rest
      (failed, f :: rest)

end Fault

namespace Interruption

variable {ι : Type}

/-- Counts a call of a word in a list of interruptions: the actions that are due, in order, and the
interruptions that are left. -/
def due (word : String) : List (Interruption ι) → List ι × List (Interruption ι)
  | [] => ([], [])
  | i :: rest =>
    let (actions, rest) := due word rest
    if i.word = word then
      if i.countdown ≤ 1 then (i.actions ++ actions, rest)
      else (actions, { i with countdown := i.countdown - 1 } :: rest)
    else
      (actions, i :: rest)

end Interruption

namespace Volume

variable {ι ρ : Type}

/-- Writes an entry into the trace. -/
def note (e : TraceEntry ρ) : Act (Volume ι ρ) Unit :=
  change fun v => { v with trace := e :: v.trace }

/-- Runs actions with a handler and traces their answers. -/
def interrupt (handler : ι → Act (Volume ι ρ) ρ) : List ι → Act (Volume ι ρ) Unit
  | [] => return ()
  | action :: rest => do
    let answer ← handler action
    note (.interrupted answer)
    interrupt handler rest

/-- Enters a call: traces it and runs the interruptions that are due. -/
def enter (handler : ι → Act (Volume ι ρ) ρ) (c : Call) : Act (Volume ι ρ) Unit := do
  note (.call c)
  let (actions, left) ← read fun v => Interruption.due c.word v.interruptions
  change fun v => { v with interruptions := left }
  interrupt handler actions

/-- Enters a call that can fail and examines the faults. -/
def attempt (handler : ι → Act (Volume ι ρ) ρ) (c : Call) : Act (Volume ι ρ) (Option Status) := do
  enter handler c
  let (failed, faults) ← read fun v => Fault.examine c v.faults
  change fun v => { v with faults }
  return failed

/-- Enters a call that can fail and does its work if it does not. -/
def serve {α : Type} (handler : ι → Act (Volume ι ρ) ρ) (c : Call)
    (work : Act (Volume ι ρ) (Outcome α)) : Act (Volume ι ρ) (Outcome α) := do
  match ← attempt handler c with
  | some status => return .error status
  | none => work

/-- A value that may be missing. -/
def orNotFound {α : Type} : Option α → Outcome α
  | none => .error .notFound
  | some x => .ok x

/-- The phase of the run in progress. -/
def phase : Act (Volume ι ρ) Phase := fun w => .ok (w.collector.progress.phase, w)

/-- The cached page of a file at an index, made at the first request. -/
def filePage (ino index : Nat) : Act (Volume ι ρ) Page := do
  match ← read (·.pages.lookup (ino, index)) with
  | some page => return page
  | none =>
    let page ← newPage (.data ino index)
    change fun v => { v with pages := v.pages ++ [((ino, index), page)] }
    return page

/-- Writes a node page to the warm node log. -/
def placeNode (page : Page) : Act (Volume ι ρ) (Outcome Address) :=
  match page.key with
  | .node nid => moveNode nid (some Log.warmNode)
  | .data .. => return .error .invalidArgument

/-- Writes a data page: to the cold data log if it was marked cold, and otherwise to the warm
one. -/
def placeData (page : Page) : Act (Volume ι ρ) (Outcome Address) :=
  match page.key with
  | .data ino index => do
    let cold ← Act.mark page .cold false
    moveData ino index (some (if cold then Log.coldData else Log.warmData))
  | .node _ => return .error .invalidArgument

/-- The volume as a backend, with a handler for the actions of interruptions. -/
def backend (handler : ι → Act (Volume ι ρ) ρ) : Backend (Volume ι ρ) where
  summary seg := do
    serve handler (.summary seg (← phase)) (read fun v => orNotFound (v.summaries.lookup seg))
  nodeInRange nid := do
    match ← attempt handler (.nodeInRange nid) with
    | some _ => return false
    | none => read fun v => 1 ≤ nid && nid ≤ v.lastNid
  nodePage nid :=
    serve handler (.nodePage nid) <| read fun v =>
      orNotFound ((v.node? nid).map fun n => ⟨n.page, nid, n.first, n.slots⟩)
  nodeInfo nid :=
    serve handler (.nodeInfo nid) <| read fun v =>
      orNotFound ((v.node? nid).map fun n => ⟨nid, n.ino, n.address, n.version⟩)
  placeNode page := serve handler (.placeNode page.key) (placeNode page)
  inode ino :=
    serve handler (.inode ino) <| read fun v =>
      orNotFound ((v.inodes.lookup ino).map fun _ => ⟨ino⟩)
  isLinked inode := do
    enter handler (.isLinked inode.ino)
    read fun v => (v.inodes.lookup inode.ino).getD false
  dataPage inode index :=
    serve handler (.dataPage inode.ino index) do return .ok (← filePage inode.ino index)
  placeData _ page := serve handler (.placeData page.key) (placeData page)
  punch inode start stop evict :=
    serve handler (.punch inode.ino start stop evict)
      (punch inode.ino (stop - start) start)
  writeback pages := do
    enter handler (.writeback (pages.map Page.key))
    let accepts ← read (·.accepts)
    return match accepts with
      | none => pages.length
      | some most => min pages.length most
  checkpointFailed := do
    enter handler .checkpointFailed
    read (·.broken)
  writeCheckpoint := do
    serve handler (.checkpoint (← phase)) (return .ok ())

end Volume

end Reclaim
