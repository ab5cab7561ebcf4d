/-!
# Statistics of background rounds

Rounds are counted by how they went; a round that was not worth making is not counted, nor is one
that met another run. The counters are words of 64 bits and wrap.
-/

namespace Reclaim

/-- The counters of the background worker. -/
structure Rounds where
  /-- The rounds made. -/
  total : UInt64 := 0
  /-- The rounds that collected a victim. -/
  successful : UInt64 := 0
  /-- The rounds that found no victim. -/
  idle : UInt64 := 0
  /-- The rounds that failed. -/
  failed : UInt64 := 0
  /-- The sections freed. -/
  sectionsFreed : UInt64 := 0
  /-- The sleep chosen after the last round, in milliseconds. -/
  sleepMillis : UInt64 := 0
  /-- The length of the last successful round, in milliseconds. -/
  lastRoundMillis : UInt64 := 0
deriving DecidableEq

namespace Rounds

/-- Whole milliseconds in a length of time in nanoseconds, in a word of 64 bits. -/
def millis (nanos : Nat) : UInt64 := UInt64.ofNat (nanos / 1_000_000)

/-- Counts a round that freed a number of sections in a length of time. -/
def countSuccess (r : Rounds) (sections nanos : Nat) : Rounds :=
  { r with
    total := r.total + 1
    successful := r.successful + 1
    sectionsFreed := r.sectionsFreed + UInt64.ofNat sections
    lastRoundMillis := millis nanos }

/-- Counts a round that found no victim. -/
def countIdle (r : Rounds) : Rounds := { r with total := r.total + 1, idle := r.idle + 1 }

/-- Counts a round that failed. -/
def countFailure (r : Rounds) : Rounds := { r with total := r.total + 1, failed := r.failed + 1 }

/-- Notes the sleep chosen after a round. -/
def noteSleep (r : Rounds) (nanos : Nat) : Rounds := { r with sleepMillis := millis nanos }

/-- The fraction of rounds that collected a victim, one before the first round. -/
def successRate (r : Rounds) : Float :=
  if r.total = 0 then 1 else r.successful.toFloat / r.total.toFloat

end Rounds

end Reclaim
