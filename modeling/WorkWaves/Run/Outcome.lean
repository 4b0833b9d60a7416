import WorkWaves.Status
import WorkWaves.Error
import WorkWaves.Json.Value

/-!
# Outcomes and summaries

What became of one item, and what became of a whole run.
-/

namespace WorkWaves

/-- What became of an item. -/
structure Outcome where
  itemId : String
  /-- The wave in which the item was; none for an item that was never in one. -/
  waveIndex : Option Nat := none
  status : Status
  /-- Whether work on the item began. If not, its status stays as it was. -/
  started : Bool := true
  reason : Option String := none
  exitCode : Option Int := none
  durationMs : Nat := 0
  deriving DecidableEq, Repr

namespace Outcome

/-- The outcome of an item that can never run. -/
def never (id reason : String) : Outcome :=
  { itemId := id, status := .skipped, reason := some reason }

/-- The outcome of an item of a wave that is passed over. -/
def passedOver (id : String) (wave : Nat) (reason : String) : Outcome :=
  { itemId := id, waveIndex := some wave, status := .skipped, reason := some reason }

/-- The outcome of an item on which work did not begin. -/
def notStarted (id : String) (wave : Nat) : Outcome :=
  { itemId := id, waveIndex := some wave, status := .pending, started := false }

def toJson (o : Outcome) : Json :=
  .obj ([("item_id", .str o.itemId)] ++
    (o.waveIndex.map fun n => ("wave_index", Json.nat n)).toList ++
    [("status", .str o.status.text)] ++
    (o.reason.map fun r => ("reason", Json.str r)).toList ++
    (o.exitCode.map fun c => ("exit_code", Json.int c)).toList ++
    [("duration_ms", .nat o.durationMs)])

end Outcome

/-- What became of a run. -/
structure Summary where
  runId : String
  attempt : Nat
  totalItems : Nat
  wavesTotal : Nat
  wavesRun : Nat
  counts : StatusCounts
  interrupted : Bool
  durationMs : Nat
  /-- In the order in which the items ended. -/
  outcomes : List Outcome
  deriving DecidableEq, Repr

namespace Summary

/-- A run succeeds when it was not interrupted and everything is completed. -/
def isSuccess (s : Summary) : Bool := !s.interrupted && s.counts.completed == s.counts.total

def exitCode (s : Summary) : ExitCode :=
  if s.interrupted then .interrupted else if s.isSuccess then .success else .itemsFailed

end Summary

def StatusCounts.toJson (c : StatusCounts) : Json :=
  .obj [("pending", .nat c.pending), ("running", .nat c.running), ("completed", .nat c.completed),
    ("failed", .nat c.failed), ("skipped", .nat c.skipped), ("timeout", .nat c.timeout),
    ("interrupted", .nat c.interrupted)]

def Summary.toJson (s : Summary) : Json :=
  .obj [("run_id", .str s.runId), ("attempt", .nat s.attempt), ("total_items", .nat s.totalItems),
    ("waves_total", .nat s.wavesTotal), ("waves_run", .nat s.wavesRun), ("counts", s.counts.toJson),
    ("interrupted", .bool s.interrupted), ("duration_ms", .nat s.durationMs),
    ("outcomes", .arr (s.outcomes.map Outcome.toJson))]

end WorkWaves
