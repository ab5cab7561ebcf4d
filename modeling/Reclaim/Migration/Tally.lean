/-!
# Collection statistics

Every pass over a section and every entry it meets is counted. The counters are words of 64 bits
and wrap.
-/

namespace Reclaim

/-- The counters of collection. -/
structure Tally where
  /-- The passes over sections that were begun. -/
  passes : UInt64 := 0
  /-- The passes that ended with an error. -/
  failedPasses : UInt64 := 0
  /-- The passes that ended well. -/
  sectionsCollected : UInt64 := 0
  /-- The segments whose summary was read. -/
  segmentsScanned : UInt64 := 0
  /-- The node blocks marked to be moved. -/
  nodesMigrated : UInt64 := 0
  /-- The data blocks marked to be moved. -/
  dataMigrated : UInt64 := 0
  /-- The summary entries that were out of date. -/
  staleEntries : UInt64 := 0
  /-- The blocks of orphaned inodes released instead of moved. -/
  orphanHoles : UInt64 := 0
  /-- The batches handed to the writer. -/
  writebackBatches : UInt64 := 0
  /-- The pages that the writer accepted. -/
  writebackPages : UInt64 := 0
  /-- The length of the last pass in microseconds. -/
  lastPassMicros : UInt64 := 0
deriving DecidableEq

namespace Tally

/-- The blocks of either kind marked to be moved. -/
def migrated (t : Tally) : UInt64 := t.nodesMigrated + t.dataMigrated

/-- The fraction of passes that ended with an error, zero before the first pass. -/
def failureRate (t : Tally) : Float :=
  if t.passes = 0 then 0 else t.failedPasses.toFloat / t.passes.toFloat

/-- Counts a pass that took a number of nanoseconds. Its length is kept in whole microseconds, as
far as 64 bits hold them. -/
def countPass (t : Tally) (ok : Bool) (nanos : Nat) : Tally :=
  { t with
    passes := t.passes + 1
    sectionsCollected := if ok then t.sectionsCollected + 1 else t.sectionsCollected
    failedPasses := if ok then t.failedPasses else t.failedPasses + 1
    lastPassMicros := UInt64.ofNat (min (nanos / 1000) 0xFFFF_FFFF_FFFF_FFFF) }

/-- Counts a segment whose summary was read. -/
def countScanned (t : Tally) : Tally := { t with segmentsScanned := t.segmentsScanned + 1 }

/-- Counts a node block marked to be moved. -/
def countNode (t : Tally) : Tally := { t with nodesMigrated := t.nodesMigrated + 1 }

/-- Counts a data block marked to be moved. -/
def countData (t : Tally) : Tally := { t with dataMigrated := t.dataMigrated + 1 }

/-- Counts a summary entry that was out of date. -/
def countStale (t : Tally) : Tally := { t with staleEntries := t.staleEntries + 1 }

/-- Counts a block of an orphaned inode that was released. -/
def countOrphan (t : Tally) : Tally := { t with orphanHoles := t.orphanHoles + 1 }

/-- Counts a batch of which the writer accepted a number of pages. -/
def countWriteback (t : Tally) (pages : Nat) : Tally :=
  { t with
    writebackBatches := t.writebackBatches + 1
    writebackPages := t.writebackPages + UInt64.ofNat pages }

end Tally

end Reclaim
